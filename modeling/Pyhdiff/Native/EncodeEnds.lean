import Pyhdiff.Native.Cancel
import Pyhdiff.Native.Parameters

/-! `zstd_encode` under any base ends, when zstd takes what it documents. -/
namespace Pyhdiff.Native
open Streaming

/-- Contexts are created, and take every parameter in its range, every length
and every prefix of a base. -/
structure EncodingLaws.Open {Z : Zstd} {F : Format UInt8} (E : EncodingLaws Z F) : Prop where
  creates : Z.createCCtx ≠ none
  sets : ∀ {ctx s p v}, E.Idle ctx s → p.InBounds v → ∃ ctx', Z.cctxSetParameter ctx p v = .ok ctx'
  pledges : ∀ {ctx s n}, E.Idle ctx s → n < 2 ^ 64 → ∃ ctx', Z.cctxSetPledgedSrcSize ctx n = .ok ctx'
  references : ∀ {ctx s b}, E.Idle ctx s → b.length ≤ rawMax → ∃ ctx', Z.cctxRefPrefix ctx b = .ok ctx'

section
variable {Z : Zstd} {F : Format UInt8} {E : EncodingLaws Z F}

theorem EncodingLaws.Open.setAll (hopen : E.Open) {l : List (CParameter × Int)}
    (hl : ∀ p ∈ l, p.1.InBounds p.2) {ctx : Z.CCtx} {s : Setup} (hidle : E.Idle ctx s) :
    ∃ ctx', l.foldlM (zset Z) ctx = .ok ctx' ∧ E.Idle ctx' (s.setAll l) := by
  induction l generalizing ctx s with
  | nil => exact ⟨ctx, rfl, hidle⟩
  | cons p l ih =>
    obtain ⟨ctx₁, h₁⟩ := hopen.sets hidle (hl p List.mem_cons_self)
    obtain ⟨ctx₂, h₂, hidle₂⟩ := ih (fun q hq => hl q (List.mem_cons_of_mem p hq))
      (E.parameterSet hidle h₁)
    refine ⟨ctx₂, ?_, hidle₂⟩
    rw [List.foldlM_cons, zset, h₁, zcheck_ok, ok_bind]
    exact h₂

variable {heap : Heap} {base target : Bytes} {o : Options} {limits : Limits}

theorem encodeSetup_open (hopen : E.Open)
    (hparams : ∀ p ∈ zstdParameters Z o base.length target.length, p.1.InBounds p.2)
    (hbase : base.length ≤ rawMax) (htarget : target.length ≤ limits.input)
    (hlt : target.length < 2 ^ 64) :
    ∃ ctx, encodeSetup Z base target o limits = .ok ctx ∧
      E.enc.Fed ctx (encodeJob E base target o) [] [] none := by
  obtain ⟨ctx, hctx⟩ := Option.ne_none_iff_exists'.mp hopen.creates
  obtain ⟨ctx₁, hset, hidle₁⟩ := hopen.setAll hparams (E.created hctx)
  obtain ⟨ctx₂, hpledge⟩ := hopen.pledges hidle₁ hlt
  have hidle₂ := E.pledgedSet hidle₁ hpledge
  obtain ⟨ctx₃, hprefix⟩ := hopen.references hidle₂ hbase
  refine ⟨ctx₃, ?_, E.begins (E.prefixSet hidle₂ hprefix) rfl⟩
  unfold encodeSetup
  rw [require_bind, if_pos ⟨hbase, htarget⟩]
  simp only [hctx, hset, ok_bind, hpledge, zcheck_ok, hprefix]

/-- The loop comes to an end before it has made as many calls as it has bytes to
feed and to give out. -/
theorem encodeLoop_ends {bound : Job (CParameter → Int) UInt8 → Nat} (hflush : E.enc.Flushes bound)
    (hcompact : E.enc.Compact bound) (hheap : heap.Grants) {job : Job (CParameter → Int) UInt8}
    (hpledged : job.pledged = target.length) (hbound : bound job ≤ limits.output) {ctx : Z.CCtx}
    (hfed : E.enc.Fed ctx job [] [] none) {passes : Nat}
    (hpasses : target.length + bound job < passes) :
    ∃ out, run (encodePass Z heap target limits) (.halt .running) passes ⟨ctx, 0, 0, .empty⟩ =
      .ok out := by
  have hsound : EncodeState.Sound E job target limits ⟨ctx, 0, 0, .empty⟩ :=
    EncodeState.start_sound hfed
  refine run_ends (encodePass Z heap target limits) (.halt .running)
    (fun s => s.Sound E job target limits ∧ s.More target) (EncodeState.ahead target (bound job))
    (fun x => ∃ out, x = .ok out)
    (fun _ hs => encodePass_ends hflush hcompact hheap hpledged hbound hs.1 hs.2) passes _
    ⟨hsound, fun hmore => ?_⟩ ?_
  · have hchunk := EncodeState.chunk_length hsound.pos
    simp only [EncodeState.Last, hchunk] at hmore ⊢
    omega
  · simp only [EncodeState.ahead]
    omega

theorem zstdEncode_open (hopen : E.Open) {bound : Job (CParameter → Int) UInt8 → Nat}
    (hflush : E.enc.Flushes bound) (hcompact : E.enc.Compact bound) (hheap : heap.Grants)
    (hparams : ∀ p ∈ zstdParameters Z o base.length target.length, p.1.InBounds p.2)
    (hbase : base.length ≤ rawMax) (htarget : target.length ≤ limits.input)
    (hlt : target.length < 2 ^ 64) (hbound : bound (encodeJob E base target o) ≤ limits.output)
    {passes : Nat} (hpasses : target.length + bound (encodeJob E base target o) < passes) :
    ∃ out, zstdEncode Z heap passes base target o limits = .ok out := by
  obtain ⟨ctx, hsetup, hfed⟩ := encodeSetup_open hopen hparams hbase htarget hlt
  obtain ⟨out, hrun⟩ := encodeLoop_ends hflush hcompact hheap rfl hbound hfed hpasses
  exact ⟨out, by rw [zstdEncode_eq, hsetup, ok_bind, hrun]⟩

end
end Pyhdiff.Native
