import Pyhdiff.Streaming.Loop
import Pyhdiff.Streaming.Format
import Pyhdiff.Streaming.Decoder
import Pyhdiff.Data.BigEndian
import Pyhdiff.Data.Packed
import Pyhdiff.Data.Sha256
import Pyhdiff.Data.Overlay
import Pyhdiff.Native.Apply
import Pyhdiff.Native.Encode
import Pyhdiff.Native.Parameters
import Pyhdiff.Native.FrameDecompress
import Pyhdiff.Streaming.Reference
import Pyhdiff.Native.Streams
import Pyhdiff.Native.Decompress
import Pyhdiff.Native.Compress
import Pyhdiff.Native.HDiff
import Pyhdiff.Native.Gate
import Pyhdiff.Native.Bridge
import Pyhdiff.Native.Refusals
import Pyhdiff.Native.Shortage
import Pyhdiff.Python.Extension
import Pyhdiff.Python.Envelope
import Pyhdiff.Python.Package
import Pyhdiff.Guarantees.Stored
import Pyhdiff.Guarantees.Frames
import Pyhdiff.Guarantees.Deltas
import Pyhdiff.Guarantees.Envelopes
import Pyhdiff.Guarantees.Safety
import Pyhdiff.Guarantees.Plugin
import Pyhdiff.Guarantees.Failures
import Pyhdiff.Guarantees.Files
import Pyhdiff.Guarantees.Parameters
import Pyhdiff.Guarantees.Profiles
import Pyhdiff.Guarantees.Payloads
import Pyhdiff.Guarantees.Standalone
import Pyhdiff.Native.PlainFiles
import Pyhdiff.Native.PlainDiff
import Pyhdiff.Guarantees.Whole
import Pyhdiff.Guarantees.Patches
import Pyhdiff.Streaming.Guarded
import Pyhdiff.Native.Cancel
import Pyhdiff.Guarantees.Cancellation
import Pyhdiff.Ownership.Arena
import Pyhdiff.Ownership.Action
import Pyhdiff.Native.Blocks
import Pyhdiff.Native.Owned
import Pyhdiff.Native.OwnedApply
import Pyhdiff.Python.OwnedCalls
import Pyhdiff.Guarantees.Ownership
import Pyhdiff.Guarantees.Total
import Pyhdiff.Guarantees.Versions
import Pyhdiff.Guarantees.Encoding
import Pyhdiff.Guarantees.Requests
import Pyhdiff.Native.Words
import Pyhdiff.Native.WordCodec
import Pyhdiff.Native.WordHDiff
import Pyhdiff.Native.WordBridge
import Pyhdiff.Guarantees.Words
import Pyhdiff.Guarantees.Raw
