import Pyhdiff.Native.Bridge
import Pyhdiff.Native.Gate
import Pyhdiff.Streaming.Pair

/-! The decoding calls of the bridge while memory runs out. -/
namespace Pyhdiff.Native
open Streaming

/-- The allocations that are refused: of a context, inside a call of zstd, of a
block and of a vector. -/
structure Shortage (Z : Zstd) where
  createDCtx : Bool
  dctxSetWindowLogMax : Z.DCtx → Nat → Bool
  dctxRefPrefix : Z.DCtx → Bytes → Bool
  decompressStream : Z.DCtx → Bytes → Nat → Bool
  realloc : (capacity n : Nat) → Bool
  new : Nat → Bool

section
variable {Z : Zstd} (R : Shortage Z)

def Zstd.starved : Zstd :=
  { Z with
    createDCtx := if R.createDCtx then none else Z.createDCtx
    dctxSetWindowLogMax := fun ctx w =>
      if R.dctxSetWindowLogMax ctx w then .error memoryAllocation else Z.dctxSetWindowLogMax ctx w
    dctxRefPrefix := fun ctx b =>
      if R.dctxRefPrefix ctx b then .error memoryAllocation else Z.dctxRefPrefix ctx b
    decompressStream := fun ctx input room =>
      if R.decompressStream ctx input room then ⟨ctx, .error memoryAllocation, 0, []⟩
      else Z.decompressStream ctx input room
    decompressStream_within := fun ctx input room => by
      split
      · exact ⟨Nat.zero_le _, Nat.zero_le _⟩
      · exact Z.decompressStream_within ctx input room }

def Heap.starved (heap : Heap) : Heap :=
  ⟨fun capacity n => !R.realloc capacity n && heap.realloc capacity n, fun n => !R.new n && heap.new n⟩

end

def Host.starved (C : Host) (R : Shortage C.zstd) : Host :=
  { C with zstd := Zstd.starved R, heap := C.heap.starved R }

section
variable {Z : Zstd} (R : Shortage Z) {heap : Heap} {G : Growth}

namespace Growable
variable {g : Growable}

end Growable

abbrev ApplyState.starved (s : ApplyState Z) : ApplyState (Zstd.starved R) := ⟨s.ctx, s.read, s.written, s.dst⟩

abbrev FrameState.starved (s : FrameState Z) : FrameState (Zstd.starved R) := ⟨s.ctx, s.pos, s.out⟩

namespace Decompress

abbrev starved (d : Decompress Z) : Decompress (Zstd.starved R) :=
  ⟨d.ctx, d.source, d.pos, d.stop, d.remaining, d.input, d.ipos, d.finished⟩

abbrev PartState.starved (s : PartState Z) : PartState (Zstd.starved R) := ⟨s.self.starved R, s.written, s.dst⟩

end Decompress

def HandleState.starved : {h : Handle} → HandleState Z h → HandleState (Zstd.starved R) h
  | .opened, d => Decompress.starved R d
  | .closed, _ => ()
  | .absent, _ => ()

end

section
variable {Z : Zstd} {R : Shortage Z} {heap : Heap} {G : Growth}

theorem growTo_refused (h : ∀ c n, heap.realloc c n = false) {g : Growable} {minimum n : Nat}
    {hle : g.size + minimum ≤ n} {r : g.Roomy minimum} : g.growTo heap minimum n hle ≠ .ok r := by
  unfold Growable.growTo
  rw [if_neg (by simp [h])]
  nofun

end

namespace Host
variable (C : Host) (R : Shortage C.zstd)

variable {C R}

end Host
end Pyhdiff.Native
