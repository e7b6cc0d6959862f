import Pyhdiff.Native.WordHDiff

/-! The entry points of the bridge in 64-bit arithmetic, against the same over
natural numbers. -/
namespace Pyhdiff.Native.Words
open Streaming

/-- The libraries of a machine answer in 64-bit numbers. -/
structure Machine (C : Host) : Prop where
  zstd : C.zstd.Words
  hdiff : C.hdiff.Words

section
variable (C : Host)

def release (encoded : Mutable.Growable) : Cxx Cells := do
  let (cells, _) ← call (Mutable.Growable.release C.heap) encoded
  return cells

def applyInto (zstd : Bool) (base payload : Bytes) (hbase : base.length < 2 ^ 64)
    (hpayload : payload.length < 2 ^ 64) (out : OutObject) : Except Halt (Except Status OutObject) :=
  boundary do
    let tn := size out.cells
    require (tn ≤ rawMax) .limit
    if zstd then zstdApply C.zstd base payload out
    else hdiffApply C.zstd C.hdiff C.heap base payload hbase hpayload out

def phdHdiffEncode (base target : Bytes) (hbase : base.length < 2 ^ 64) (htarget : target.length < 2 ^ 64)
    (o : HDiffOptions) : Except Halt (Except Status Cells) :=
  boundary do
    let options ← hdiffOptions o
    let encoded ← hdiffEncode C.zstd C.hdiff C.heap C.passes base target hbase htarget options
    release C encoded

def phdHdiffApply (base payload : Bytes) (hbase : base.length < 2 ^ 64) (hpayload : payload.length < 2 ^ 64)
    (out : OutObject) : Except Halt (Except Status OutObject) :=
  applyInto C false base payload hbase hpayload out

def phdZstdEncode (base target : Bytes) (o : ZstdOptions) : Except Halt (Except Status Cells) :=
  boundary do
    let options ← zstdOptions o
    let encoded ← zstdEncode C.zstd C.heap C.passes base target options kCodecLimits
    release C encoded

def phdZstdApply (base payload : Bytes) (hbase : base.length < 2 ^ 64) (hpayload : payload.length < 2 ^ 64)
    (out : OutObject) : Except Halt (Except Status OutObject) :=
  applyInto C true base payload hbase hpayload out

def phdZstdCompress (data : Bytes) (level windowLog checksum : Int) : Except Halt (Except Status Cells) :=
  boundary do
    let options ← zstdOptions ⟨level, windowLog, 0, 1, checksum, 0, 0, 0, 0⟩
    let encoded ← zstdEncode C.zstd C.heap C.passes [] data options kFrameLimits
    release C encoded

def phdZstdDecompress (data : Bytes) (maxOutput : UInt64) : Except Halt (Except Status Cells) :=
  boundary do
    let out ← frameDecompress C.zstd C.heap data maxOutput
    release C out

end

section
variable {C : Host} {base target payload data : Bytes}

theorem released_words {x : Cxx Mutable.Growable} {y : Cxx Growable}
    (h : Corresponds (fun g out => g.Models out) x y) :
    x >>= release C = y >>= fun out => out.release C.heap := by
  refine (h.bind fun g out _ hmodels => ?_).eq
  have hreleased := Mutable.Growable.release_words C.heap hmodels
  unfold release
  generalize out.release C.heap = z at *
  generalize call (Mutable.Growable.release C.heap) g = w at *
  cases w with
  | error e =>
    cases z with
    | error e' => exact hreleased
    | ok cells => exact hreleased.elim
  | ok p =>
    cases z with
    | error e' => exact hreleased.elim
    | ok cells => exact hreleased

theorem applyInto_words (hC : Machine C) (zstd : Bool) (hbase : base.length < 2 ^ 64)
    (hpayload : payload.length < 2 ^ 64) {out : OutObject} (hout : out.cells.length < 2 ^ 64) :
    applyInto C zstd base payload hbase hpayload out = C.applyInto zstd base payload out := by
  have hcheck : size out.cells ≤ rawMax ↔ out.cells.length ≤ Native.rawMax := by
    rw [UInt64.le_iff_toNat_le, toNat_size hout]
    rfl
  unfold applyInto Host.applyInto
  dsimp only
  rw [require_congr hcheck, zstdApply_words hC.zstd hbase hpayload hout,
    hdiffApply_words hC.hdiff hbase hpayload hout]

theorem phdHdiffEncode_words (hC : Machine C) (hbase : base.length < 2 ^ 64)
    (htarget : target.length < 2 ^ 64) (o : HDiffOptions) :
    phdHdiffEncode C base target hbase htarget o = C.phdHdiffEncode base target o := by
  refine congrArg boundary (bind_congr_ok fun options _ => ?_)
  exact released_words (hdiffEncode_words hC.zstd hC.hdiff hbase htarget)

theorem phdZstdEncode_words (hbase : base.length < 2 ^ 64) (htarget : target.length < 2 ^ 64)
    (o : ZstdOptions) : phdZstdEncode C base target o = C.phdZstdEncode base target o := by
  refine congrArg boundary (bind_congr_ok fun options _ => ?_)
  exact released_words ((zstdEncode_words hbase htarget kCodecLimits_models C.passes options).mono
    fun g out h => h.1)

theorem phdZstdCompress_words (hdata : data.length < 2 ^ 64) (level windowLog checksum : Int) :
    phdZstdCompress C data level windowLog checksum = C.phdZstdCompress data level windowLog checksum := by
  refine congrArg boundary (bind_congr_ok fun options _ => ?_)
  exact released_words ((zstdEncode_words (by decide) hdata kFrameLimits_models C.passes options).mono
    fun g out h => h.1)

theorem phdZstdDecompress_words (hC : Machine C) (hdata : data.length < 2 ^ 64) (maxOutput : UInt64) :
    phdZstdDecompress C data maxOutput = C.phdZstdDecompress data maxOutput.toNat :=
  congrArg boundary (released_words (frameDecompress_words hC.zstd hdata))

end
end Pyhdiff.Native.Words
