import Pyhdiff.Native.Apply
import Pyhdiff.Native.Encode
import Pyhdiff.Native.FrameDecompress
import Pyhdiff.Native.HDiff

/-! The entry points of the bridge. Their callers pass bytes objects, so the
checks for null pointers always hold and are left out. -/
namespace Pyhdiff.Native
open Streaming

/-- The libraries and the allocator a call runs with. An encoder calls zstd at
most `passes` times in one loop. -/
structure Host where
  zstd : Zstd
  hdiff : HDiffPatch
  heap : Heap
  passes : Nat

namespace Host
variable (C : Host)

def applyInto (zstd : Bool) (base payload : Bytes) (out : OutObject) :
    Except Halt (Except Status OutObject) :=
  boundary do
    let tn := out.cells.length
    require (tn ≤ rawMax) .limit
    if zstd then zstdApply C.zstd base payload out
    else hdiffApply C.zstd C.hdiff C.heap base payload out

def phdHdiffEncode (base target : Bytes) (o : HDiffOptions) : Except Halt (Except Status Cells) :=
  boundary do
    let options ← hdiffOptions o
    let encoded ← hdiffEncode C.zstd C.hdiff C.heap C.passes base target options
    encoded.release C.heap

def phdHdiffApply (base payload : Bytes) (out : OutObject) :
    Except Halt (Except Status OutObject) := C.applyInto false base payload out

def phdZstdEncode (base target : Bytes) (o : ZstdOptions) : Except Halt (Except Status Cells) :=
  boundary do
    let options ← zstdOptions o
    let encoded ← zstdEncode C.zstd C.heap C.passes base target options kCodecLimits
    encoded.release C.heap

def phdZstdApply (base payload : Bytes) (out : OutObject) :
    Except Halt (Except Status OutObject) := C.applyInto true base payload out

def phdZstdCompress (data : Bytes) (level windowLog checksum : Int) :
    Except Halt (Except Status Cells) :=
  boundary do
    let options ← zstdOptions ⟨level, windowLog, 0, 1, checksum, 0, 0, 0, 0⟩
    let encoded ← zstdEncode C.zstd C.heap C.passes [] data options kFrameLimits
    encoded.release C.heap

def phdZstdDecompress (data : Bytes) (maxOutput : Nat) : Except Halt (Except Status Cells) :=
  boundary do
    let out ← frameDecompress C.zstd C.heap data maxOutput
    out.release C.heap

theorem applyInto_ends (zstd : Bool) (base payload : Bytes) (n : Nat) :
    (∃ s, C.applyInto zstd base payload (.fresh n) = .ok (.error s)) ∨
    ∃ d, C.applyInto zstd base payload (.fresh n) = .ok (.ok d) ∧ d.cells.length = n := by
  have hfresh : (OutObject.fresh n).cells.length = n := (OutObject.fresh_wrote n).length
  have hsafe : Safe (fun d : OutObject => d.cells.length = n) (do
      let tn := (OutObject.fresh n).cells.length
      require (tn ≤ rawMax) .limit
      if zstd then zstdApply C.zstd base payload (.fresh n)
      else hdiffApply C.zstd C.hdiff C.heap base payload (.fresh n)) := by
    refine (safe_require _ _).bind fun _ _ => ?_
    split
    · refine (zstdApplyWith_safe C.zstd (by decide) base payload n).mono ?_
      rintro d ⟨_, _, _, -, hwrote, -⟩
      exact hwrote.length
    · exact (hdiffApply_safe C.zstd C.hdiff C.heap base payload _).mono fun d hd => hd.trans hfresh
  exact hsafe.boundary

theorem phdZstdDecompress_ends (data : Bytes) (maxOutput : Nat) :
    (∃ s, C.phdZstdDecompress data maxOutput = .ok (.error s)) ∨
    ∃ cells, C.phdZstdDecompress data maxOutput = .ok (.ok cells) ∧ cells.length ≤ maxOutput := by
  have hsafe : Safe (fun cells : Cells => cells.length ≤ maxOutput) (do
      let out ← frameDecompress C.zstd C.heap data maxOutput
      out.release C.heap) := by
    refine (frameDecompressWith_safe C.zstd C.heap .source data maxOutput).bind fun out ⟨_, hle, _⟩ => ?_
    cases out.release_cases C.heap with
    | inl h =>
      rw [h]
      exact (Nat.le_of_eq out.contents_length).trans hle
    | inr h =>
      obtain ⟨h, -⟩ := h
      rw [h]
      trivial
  exact hsafe.boundary

theorem phdHdiffEncode_bounded {C : Host} {base target : Bytes} {o : HDiffOptions} {cells : Cells}
    (h : C.phdHdiffEncode base target o = .ok (.ok cells)) : cells.length ≤ payloadMax := by
  simp only [phdHdiffEncode, boundary_ok_iff, bind_eq_ok] at h
  obtain ⟨options, -, out, hencode, hrelease⟩ := h
  rw [Growable.release_eq_ok hrelease, Growable.contents_length]
  exact (hdiffEncode_bounded hencode).2.2

theorem phdZstdEncode_bounded {C : Host} {base target : Bytes} {o : ZstdOptions} {cells : Cells}
    (h : C.phdZstdEncode base target o = .ok (.ok cells)) : cells.length ≤ payloadMax := by
  simp only [phdZstdEncode, boundary_ok_iff, bind_eq_ok] at h
  obtain ⟨options, -, out, hencode, hrelease⟩ := h
  rw [Growable.release_eq_ok hrelease, Growable.contents_length]
  exact zstdEncode_bounded hencode

section
variable {C} {F : Format UInt8} (E : EncodingLaws C.zstd F)
variable {base target : Bytes} {cells : Cells}

theorem phdZstdEncode_ok {o : ZstdOptions} (h : C.phdZstdEncode base target o = .ok (.ok cells)) :
    ∃ options b f out, zstdOptions o = .ok options ∧ base.length ≤ rawMax ∧ target.length ≤ rawMax ∧
      Encoded E (encodeJob E base target options) target kCodecLimits out b f ∧
      cells = b.map some := by
  simp only [phdZstdEncode, boundary_ok_iff, bind_eq_ok] at h
  obtain ⟨options, ho, out, hencode, hrelease⟩ := h
  obtain ⟨hbase, htarget, b, f, hencoded⟩ := zstdEncode_ok (E := E) hencode
  exact ⟨options, b, f, out, ho, hbase, htarget, hencoded,
    (Growable.release_eq_ok hrelease).trans hencoded.contents⟩

theorem phdZstdCompress_ok {level windowLog checksum : Int}
    (h : C.phdZstdCompress target level windowLog checksum = .ok (.ok cells)) :
    ∃ options b f out, Encoded E (encodeJob E [] target options) target kFrameLimits out b f ∧
      cells = b.map some := by
  simp only [phdZstdCompress, boundary_ok_iff, bind_eq_ok] at h
  obtain ⟨options, -, out, hencode, hrelease⟩ := h
  obtain ⟨-, -, b, f, hencoded⟩ := zstdEncode_ok (E := E) hencode
  exact ⟨options, b, f, out, hencoded, (Growable.release_eq_ok hrelease).trans hencoded.contents⟩

end

end Host
end Pyhdiff.Native
