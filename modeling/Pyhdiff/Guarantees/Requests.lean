import Pyhdiff.Guarantees.Stored
import Pyhdiff.Native.Requests

/-! Memory: how much each entry point can ask the allocator for, whatever the
input, the libraries and the allocator do. -/
namespace Pyhdiff.Guarantees
open Native

/-- A call never asks for a block beyond `most`, and one that returns `n` bytes for
none beyond `needs n`; its vectors have at most `vector` bytes. Then no allocator
that grants these alike makes a difference to it. -/
structure AsksFor (call : Heap → Except Halt (Except Status Cells)) (most vector : Nat)
    (needs : Nat → Nat) : Prop where
  most : ∀ {heap heap' : Heap}, heap.Agrees heap' most vector → call heap = call heap'
  needs : ∀ {heap heap' : Heap} {cells : Cells}, call heap = .ok (.ok cells) →
    heap.Agrees heap' (needs cells.length) vector → call heap' = .ok (.ok cells)

theorem AsksFor.of_released (make : Heap → Cxx Growable) {most vector : Nat} {needs : Nat → Nat}
    (hone : 1 ≤ most) (hones : ∀ n, 1 ≤ needs n)
    (hmost : ∀ {heap heap' : Heap}, heap.Agrees heap' most vector → make heap = make heap')
    (hneeds : ∀ {heap heap' : Heap} {out : Growable}, make heap = .ok out →
      heap.Agrees heap' (needs out.size) vector → make heap' = .ok out) :
    AsksFor (fun heap => boundary (make heap >>= fun out => out.release heap)) most vector needs where
  most {heap heap'} h := by
    rw [hmost h]
    refine congrArg boundary (Streaming.bind_congr_ok fun out _ => ?_)
    exact Growable.release_agrees h hone
  needs {heap heap' cells} hcall h := by
    obtain ⟨out, hmake, hrelease⟩ := bind_eq_ok.mp (boundary_ok_iff.mp hcall)
    have hsize : cells.length = out.size := by
      rw [Growable.release_eq_ok hrelease, Growable.contents_length]
    rw [hsize] at h
    rw [Growable.release_agrees h (hones _)] at hrelease
    exact boundary_ok_iff.mpr (bind_eq_ok.mpr ⟨out, hneeds hmake h, hrelease⟩)

theorem AsksFor.of_options {α : Type} (options : Cxx α) (make : α → Heap → Cxx Growable)
    {most vector : Nat} {needs : Nat → Nat} (hone : 1 ≤ most) (hones : ∀ n, 1 ≤ needs n)
    (hmost : ∀ {o} {heap heap' : Heap}, heap.Agrees heap' most vector → make o heap = make o heap')
    (hneeds : ∀ {o} {heap heap' : Heap} {out : Growable}, make o heap = .ok out →
      heap.Agrees heap' (needs out.size) vector → make o heap' = .ok out) :
    AsksFor (fun heap => boundary do
      let o ← options
      let out ← make o heap
      out.release heap) most vector needs := by
  cases options with
  | error e =>
    refine ⟨fun _ => rfl, fun hcall _ => ?_⟩
    exact hcall
  | ok o => exact AsksFor.of_released (make o) hone hones hmost hneeds

/-- Memory follows the output. An encoder asks for at most half more than the
payload it returns, and for at most half more than its limit where it fails; the
decompressor for the output, 64 KiB and half of both, or for the size the frame
claims within the bound, and never for more than half over the bound; applying a
patch asks for its cache only, and `zstd_apply` for nothing. The plugin adds its
two vectors, and an empty result a block of one byte. -/
theorem requests_bounded (C : Host) :
    (∀ base target o, AsksFor (fun heap => { C with heap := heap }.phdZstdEncode base target o)
      (growthMax payloadMax) 0 (fun n => max 1 (growthMax n))) ∧
    (∀ data level windowLog checksum, AsksFor
      (fun heap => { C with heap := heap }.phdZstdCompress data level windowLog checksum)
      (growthMax frameMax) 0 (fun n => max 1 (growthMax n))) ∧
    (∀ data maxOutput, AsksFor (fun heap => { C with heap := heap }.phdZstdDecompress data maxOutput)
      (max 1 (growthMax maxOutput)) 0
      (fun n => max 1 (max (frameReserve C.zstd data maxOutput) (growthMax (n + 65536))))) ∧
    (∀ base target o, AsksFor (fun heap => { C with heap := heap }.phdHdiffEncode base target o)
      (growthMax payloadMax) (max C.zstd.cStreamInSize C.zstd.cStreamOutSize)
      (fun n => max 1 (growthMax n))) ∧
    (∀ base payload out {heap heap' : Heap},
      heap.Agrees heap' 0 (stepMax + C.hdiff.kStreamCacheSize * 3) →
      { C with heap := heap }.phdHdiffApply base payload out =
        { C with heap := heap' }.phdHdiffApply base payload out) ∧
    (∀ base payload out heap heap', { C with heap := heap }.phdZstdApply base payload out =
      { C with heap := heap' }.phdZstdApply base payload out) := by
  refine ⟨fun base target o => ?_, fun data level windowLog checksum => ?_, fun data maxOutput => ?_,
    fun base target o => ?_, fun base payload out heap heap' h => ?_, fun _ _ _ _ _ => rfl⟩
  · refine AsksFor.of_options (zstdOptions o) (fun o heap =>
      zstdEncode C.zstd heap C.passes base target o kCodecLimits) (by decide)
      (fun _ => Nat.le_max_left _ _) (fun h => zstdEncode_agrees h (Nat.le_refl _)) fun hrun h => ?_
    exact zstdEncode_agrees_ok h hrun (Nat.le_max_right _ _)
  · refine AsksFor.of_options (zstdOptions ⟨level, windowLog, 0, 1, checksum, 0, 0, 0, 0⟩)
      (fun o heap => zstdEncode C.zstd heap C.passes [] data o kFrameLimits) (by decide)
      (fun _ => Nat.le_max_left _ _) (fun h => zstdEncode_agrees h (Nat.le_refl _)) fun hrun h => ?_
    exact zstdEncode_agrees_ok h hrun (Nat.le_max_right _ _)
  · refine AsksFor.of_released (fun heap => frameDecompress C.zstd heap data maxOutput)
      (Nat.le_max_left _ _) (fun _ => Nat.le_max_left _ _)
      (fun h => frameDecompress_agrees h (Nat.le_max_right _ _)) fun hrun h => ?_
    exact frameDecompress_agrees_ok h hrun
      ((Nat.le_max_left _ _).trans (Nat.le_max_right _ _))
      ((Nat.le_max_right _ _).trans (Nat.le_max_right _ _))
  · refine AsksFor.of_options (hdiffOptions o) (fun o heap =>
      hdiffEncode C.zstd C.hdiff heap C.passes base target o) (by decide)
      (fun _ => Nat.le_max_left _ _)
      (fun h => hdiffEncode_agrees h (Nat.le_max_left _ _) (Nat.le_max_right _ _) (Nat.le_refl _))
      fun hrun h => ?_
    exact hdiffEncode_agrees_ok h (Nat.le_max_left _ _) (Nat.le_max_right _ _) hrun
      (Nat.le_max_right _ _)
  · refine congrArg boundary (Streaming.bind_congr_ok fun _ _ => ?_)
    exact hdiffApply_agrees h (Nat.le_refl _) out

-- a frame of 12 bytes, from an allocator that has no more than 18 to give
theorem requests_bounded_abc :
    { Stored.host with heap := ⟨fun _ n => decide (n ≤ 18), fun n => decide (n = 0)⟩ }.phdZstdCompress
      [97, 98, 99] 3 0 0 = .ok (.ok (Stored.abcFrame.map some)) := by
  have hcall : Stored.host.phdZstdCompress [97, 98, 99] 3 0 0 =
      .ok (.ok (Stored.abcFrame.map some)) := by decide +kernel
  refine ((requests_bounded Stored.host).2.1 [97, 98, 99] 3 0 0).needs hcall ⟨fun c n hn => ?_, fun n hn => ?_⟩
  · exact (decide_eq_true hn).symm
  · exact (decide_eq_true (Nat.le_zero.mp hn)).symm

end Pyhdiff.Guarantees
