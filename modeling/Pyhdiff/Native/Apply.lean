import Pyhdiff.Native.Memory
import Pyhdiff.Native.Zstd
import Pyhdiff.Streaming.Loop

/-! `zstd_apply`: decoding one frame into an output of known size. -/
namespace Pyhdiff.Native
open Streaming

structure ApplyState (Z : Zstd) where
  ctx : Z.DCtx
  read : Nat
  written : Nat
  dst : OutObject

/-- One pass of the decode loop, on chunks of at most `inChunk` and `outChunk`
bytes. With the output full the decoder is offered one scratch byte instead.
No exported entry point passes a cancel callback. -/
def applyPass (Z : Zstd) (inChunk outChunk : Nat) (src : Bytes) (tn : Nat)
    (s : ApplyState Z) : Cxx (Pass (ApplyState Z) (ApplyState Z)) := do
  let chunk ← subspan src s.read (min inChunk (src.length - s.read))
  let output ← subspan s.dst.cells s.written (min outChunk (tn - s.written))
  let r := Z.decompressStream s.ctx chunk (if output.isEmpty then 1 else output.length)
  let dst := if output.isEmpty then s.dst else s.dst.store s.written r.produced
  let remaining ← zcheck r.result
  require (r.produced.length ≤ tn - s.written) .limit
  require (remaining = 0 ∨ r.consumed ≠ 0 ∨ r.produced.length ≠ 0) .invalid
  let s' := ⟨r.ctx, s.read + r.consumed, s.written + r.produced.length, dst⟩
  return if remaining ≠ 0 then .next s' else .stop s'

def zstdApplyWith (Z : Zstd) (inChunk outChunk : Nat) (base src : Bytes) (dst : OutObject) :
    Cxx OutObject := do
  let tn := dst.cells.length
  require (base.length ≤ rawMax ∧ tn ≤ rawMax ∧ src.length ≤ payloadMax) .limit
  let _ ← zcheck (Z.getFrameHeader src)
  let (needed, header) ← zcheck (Z.getFrameHeader src)
  require (needed = 0 ∧ header.skippable = false) .invalid
  require (header.windowSize ≤ 2 ^ zstdWindowLogMax) .limit
  require (header.frameContentSize = contentSizeUnknown ∨ header.frameContentSize = tn) .invalid
  let some ctx := Z.createDCtx | .error (.thrown .badAlloc)
  let ctx ← zcheck (Z.dctxSetWindowLogMax ctx zstdWindowLogMax)
  let ctx ← zcheck (Z.dctxRefPrefix ctx base)
  let s ← run (applyPass Z inChunk outChunk src tn) (.halt .running) (src.length + tn + 1)
    ⟨ctx, 0, 0, dst⟩
  require (s.read = src.length ∧ s.written = tn) .invalid
  return s.dst

def zstdApply (Z : Zstd) : Bytes → Bytes → OutObject → Cxx OutObject :=
  zstdApplyWith Z 65536 65536

namespace ApplyState
variable {Z : Zstd} (s : ApplyState Z)

def input (inChunk : Nat) (src : Bytes) : Bytes :=
  (src.drop s.read).take (min inChunk (src.length - s.read))

def room (outChunk tn : Nat) : Nat :=
  if min outChunk (tn - s.written) = 0 then 1 else min outChunk (tn - s.written)

abbrev reply (inChunk outChunk : Nat) (src : Bytes) (tn : Nat) : Reply Z.DCtx UInt8 :=
  Z.decompressStream s.ctx (s.input inChunk src) (s.room outChunk tn)

def advance (r : Reply Z.DCtx UInt8) : ApplyState Z :=
  ⟨r.ctx, s.read + r.consumed, s.written + r.produced.length, s.dst.store s.written r.produced⟩

structure InRange (src : Bytes) (tn : Nat) : Prop where
  read : s.read ≤ src.length
  written : s.written ≤ tn
  length : s.dst.cells.length = tn

theorem room_pos (outChunk tn : Nat) : 0 < s.room outChunk tn := by
  unfold room
  split <;> omega

end ApplyState

section
variable {Z : Zstd} {inChunk outChunk tn : Nat} {src : Bytes} {s : ApplyState Z}

/-- Everything a pass can do once its offsets are in range, by the reply of the
decoder: report its error, refuse surplus output, refuse a stall, or advance. -/
theorem applyPass_cases (inChunk : Nat) (hchunk : 0 < outChunk) (hs : s.InRange src tn) :
    let r := s.reply inChunk outChunk src tn
    (∃ e, r.result = .error e ∧ applyPass Z inChunk outChunk src tn s = zcheck (.error e)) ∨
    (∃ k, r.result = .ok k ∧ tn - s.written < r.produced.length ∧
      applyPass Z inChunk outChunk src tn s = fail .limit) ∨
    (∃ k, r.result = .ok (k+1) ∧ r.consumed = 0 ∧ r.produced = [] ∧
      applyPass Z inChunk outChunk src tn s = fail .invalid) ∨
    (∃ k, r.result = .ok (k+1) ∧ r.produced.length ≤ tn - s.written ∧
      (r.consumed ≠ 0 ∨ r.produced ≠ []) ∧
      applyPass Z inChunk outChunk src tn s = .ok (.next (s.advance r))) ∨
    (r.result = .ok 0 ∧ r.produced.length ≤ tn - s.written ∧
      applyPass Z inChunk outChunk src tn s = .ok (.stop (s.advance r))) := by
  intro r
  have hread := hs.read
  have hwritten := hs.written
  have hlength := hs.length
  have hspan : ((s.dst.cells.drop s.written).take (min outChunk (tn - s.written))).length =
      min outChunk (tn - s.written) := by
    simp only [List.length_take, List.length_drop]
    omega
  have hempty : ((s.dst.cells.drop s.written).take (min outChunk (tn - s.written))).isEmpty = true ↔
      min outChunk (tn - s.written) = 0 := by
    rw [List.isEmpty_iff_length_eq_zero, hspan]
  have hpass : applyPass Z inChunk outChunk src tn s = (do
      let remaining ← zcheck r.result
      require (r.produced.length ≤ tn - s.written) .limit
      require (remaining = 0 ∨ r.consumed ≠ 0 ∨ r.produced.length ≠ 0) .invalid
      let s' := ⟨r.ctx, s.read + r.consumed, s.written + r.produced.length,
        if min outChunk (tn - s.written) = 0 then s.dst else s.dst.store s.written r.produced⟩
      return if remaining ≠ 0 then .next s' else .stop s') := by
    unfold applyPass
    rw [subspan_ok hread (Nat.min_le_right _ _), subspan_ok (by omega) (by omega)]
    simp only [ok_bind, hempty, hspan]
    rfl
  have hdst : r.produced.length ≤ tn - s.written →
      (if min outChunk (tn - s.written) = 0 then s.dst else s.dst.store s.written r.produced) =
        s.dst.store s.written r.produced := by
    intro hfit
    split
    · have hnil : r.produced = [] := List.length_eq_zero_iff.mp (by omega)
      rw [hnil, OutObject.store_nil]
    · rfl
  cases hres : r.result with
  | error e =>
    refine .inl ⟨e, rfl, ?_⟩
    rw [hpass, hres, zcheck_error, zcheck_error, fail_bind]
  | ok k =>
    right
    rw [hres] at hpass
    simp only [zcheck_ok, ok_bind, require_bind] at hpass
    by_cases hfit : r.produced.length ≤ tn - s.written
    · rw [if_pos hfit, hdst hfit] at hpass
      right
      cases k with
      | zero =>
        refine .inr (.inr ⟨rfl, hfit, ?_⟩)
        rw [hpass, if_pos (.inl rfl)]
        rfl
      | succ k =>
        by_cases hmove : r.consumed ≠ 0 ∨ r.produced ≠ []
        · refine .inr (.inl ⟨k, rfl, hfit, hmove, ?_⟩)
          rw [hpass, if_pos (by simpa using hmove)]
          rfl
        · simp only [ne_eq, not_or, not_not] at hmove
          refine .inl ⟨k, rfl, hmove.1, hmove.2, ?_⟩
          rw [hpass, if_neg (by simp [hmove])]
    · rw [if_neg hfit] at hpass
      exact .inl ⟨k, rfl, by omega, hpass⟩

theorem applyPass_end (hchunk : 0 < outChunk) (hs : s.InRange src tn)
    (hres : (s.reply inChunk outChunk src tn).result = .ok 0)
    (hfit : (s.reply inChunk outChunk src tn).produced.length ≤
      tn - s.written) :
    applyPass Z inChunk outChunk src tn s =
      .ok (.stop (s.advance (s.reply inChunk outChunk src tn))) := by
  rcases applyPass_cases inChunk hchunk hs with ⟨e, h, -⟩ | ⟨k, -, h, -⟩ | ⟨k, h, -⟩ | ⟨k, h, -⟩ | ⟨-, -, h⟩
  · simp [hres] at h
  · omega
  · simp [hres] at h
  · simp [hres] at h
  · exact h

theorem applyPass_next (hchunk : 0 < outChunk) (hs : s.InRange src tn) {k : Nat}
    (hres : (s.reply inChunk outChunk src tn).result = .ok (k+1))
    (hfit : (s.reply inChunk outChunk src tn).produced.length ≤
      tn - s.written)
    (hmove : (s.reply inChunk outChunk src tn).consumed ≠ 0 ∨
      (s.reply inChunk outChunk src tn).produced ≠ []) :
    applyPass Z inChunk outChunk src tn s =
      .ok (.next (s.advance (s.reply inChunk outChunk src tn))) := by
  rcases applyPass_cases inChunk hchunk hs with ⟨e, h, -⟩ | ⟨k, -, h, -⟩ | ⟨k, -, h, h', -⟩ |
    ⟨k, -, -, -, h⟩ | ⟨h, -⟩
  · simp [hres] at h
  · omega
  · simp [h, h'] at hmove
  · exact h
  · simp [hres] at h

theorem ApplyState.InRange.advance (hs : s.InRange src tn) {o : Bytes}
    (ho : s.dst.Wrote tn o) (hlen : o.length = s.written) {r : Reply Z.DCtx UInt8}
    (hw : r.consumed ≤ (s.input inChunk src).length) (hfit : r.produced.length ≤ tn - s.written) :
    (s.advance r).InRange src tn ∧ (s.advance r).dst.Wrote tn (o ++ r.produced) ∧
      (o ++ r.produced).length = (s.advance r).written := by
  have hread := hs.read
  have hwritten := hs.written
  have hstore : (s.advance r).dst.Wrote tn (o ++ r.produced) := by
    unfold ApplyState.advance
    rw [← hlen]
    exact ho.store (by omega)
  refine ⟨⟨?_, ?_, hstore.length⟩, hstore, ?_⟩
  · simp only [ApplyState.input, List.length_take, List.length_drop] at hw
    simp only [ApplyState.advance]
    omega
  · simp only [ApplyState.advance]
    omega
  · simp [ApplyState.advance, hlen]

end

def ApplyState.ahead {Z : Zstd} (src : Bytes) (tn : Nat) (s : ApplyState Z) : Nat :=
  (src.length - s.read) + (tn - s.written)

theorem ApplyState.InRange.ahead_lt {Z : Zstd} {src : Bytes} {tn : Nat} {s : ApplyState Z}
    {r : Reply Z.DCtx UInt8} (hs : (s.advance r).InRange src tn)
    (hmove : r.consumed ≠ 0 ∨ r.produced ≠ []) : (s.advance r).ahead src tn < s.ahead src tn := by
  have hread := hs.read
  have hwritten := hs.written
  simp only [ApplyState.advance] at hread hwritten
  simp only [ApplyState.ahead, ApplyState.advance]
  cases hmove with
  | inl h => omega
  | inr h =>
    have := List.length_pos_iff.mpr h
    omega

def ApplyState.Sound {Z : Zstd} (src : Bytes) (tn : Nat) (s : ApplyState Z) : Prop :=
  s.InRange src tn ∧ ∃ o, s.dst.Wrote tn o ∧ o.length = s.written

/-- Whatever the decoder does, the loop ends within one pass for each byte of
payload and output, no span is out of range, and what it returns is an output
object written from its start up to where the loop stands. -/
theorem applyLoop_safe {Z : Zstd} (inChunk : Nat) {outChunk : Nat} (src : Bytes) (tn : Nat)
    (hchunk : 0 < outChunk) (ctx : Z.DCtx) (n : Nat) (hn : src.length + tn < n) :
    Safe (ApplyState.Sound src tn)
      (run (applyPass Z inChunk outChunk src tn) (.halt .running) n ⟨ctx, 0, 0, .fresh tn⟩) := by
  refine run_ends _ _ (ApplyState.Sound src tn) (ApplyState.ahead src tn)
    (Safe (ApplyState.Sound src tn)) ?_ n _ ?_ ?_
  · rintro s ⟨hs, o, ho, hlen⟩
    have hw := Z.decompressStream_within s.ctx (s.input inChunk src) (s.room outChunk tn)
    rcases applyPass_cases inChunk hchunk hs with ⟨e, -, h⟩ | ⟨k, -, -, h⟩ | ⟨k, -, -, -, h⟩ |
      ⟨k, -, hfit, hmove, h⟩ | ⟨-, hfit, h⟩
    · rw [h]
      exact trivial
    · rw [h]
      exact trivial
    · rw [h]
      exact trivial
    · obtain ⟨hs', ho', hlen'⟩ := hs.advance ho hlen hw.1 hfit
      rw [h]
      exact ⟨⟨hs', _, ho', hlen'⟩, hs'.ahead_lt hmove⟩
    · obtain ⟨hs', ho', hlen'⟩ := hs.advance ho hlen hw.1 hfit
      rw [h]
      exact ⟨hs', _, ho', hlen'⟩
  · exact ⟨⟨Nat.zero_le _, Nat.zero_le _, (OutObject.fresh_wrote tn).length⟩, [],
      OutObject.fresh_wrote tn, rfl⟩
  · simpa [ApplyState.ahead] using hn

theorem applyLoop_draws {Z : Zstd} (inChunk : Nat) {outChunk : Nat} (src : Bytes) (tn : Nat)
    (hchunk : 0 < outChunk) {ctx : Z.DCtx} {n : Nat} {t : ApplyState Z}
    (hrun : run (applyPass Z inChunk outChunk src tn) (.halt .running) n ⟨ctx, 0, 0, .fresh tn⟩ =
      .ok t) :
    ∃ out, Draws Z.decompressStream src ctx t.ctx t.read out ∧ t.dst.Wrote tn out ∧
      out.length = t.written := by
  refine run_partial (applyPass Z inChunk outChunk src tn) (.halt .running)
    (fun s => s.InRange src tn ∧ ∃ o, Draws Z.decompressStream src ctx s.ctx s.read o ∧
      s.dst.Wrote tn o ∧ o.length = s.written)
    (fun x => ∀ t, x = .ok t → ∃ out, Draws Z.decompressStream src ctx t.ctx t.read out ∧
      t.dst.Wrote tn out ∧ out.length = t.written)
    nofun ?_ n _ ?_ t hrun
  · rintro s ⟨hs, o, hdraws, ho, hlen⟩
    have hw := (Z.decompressStream_within s.ctx (s.input inChunk src) (s.room outChunk tn)).1
    have hinput : s.input inChunk src <+: src.drop s.read := List.take_prefix _ _
    rcases applyPass_cases inChunk hchunk hs with ⟨e, -, h⟩ | ⟨k, -, -, h⟩ |
      ⟨k, -, -, -, h⟩ | ⟨k, hres, hfit, -, h⟩ | ⟨hres, hfit, h⟩
    · rw [h]
      nofun
    · rw [h]
      nofun
    · rw [h]
      nofun
    · obtain ⟨hs', ho', hlen'⟩ := hs.advance ho hlen hw hfit
      rw [h]
      exact ⟨hs', _, hdraws.call hinput hres, ho', hlen'⟩
    · obtain ⟨-, ho', hlen'⟩ := hs.advance ho hlen hw hfit
      rw [h]
      rintro t ⟨⟩
      exact ⟨_, hdraws.call hinput hres, ho', hlen'⟩
  · exact ⟨⟨Nat.zero_le _, Nat.zero_le _, (OutObject.fresh_wrote tn).length⟩, [], .start,
      OutObject.fresh_wrote tn, rfl⟩

/-- An accepted payload was read to its end, and each byte of the output was
stored once and in order by the decoder. -/
theorem zstdApplyWith_safe (Z : Zstd) {inChunk outChunk : Nat} (hchunk : 0 < outChunk)
    (base src : Bytes) (tn : Nat) :
    Safe (fun d => ∃ ctx ctx' out, Draws Z.decompressStream src ctx ctx' src.length out ∧
      d.Wrote tn out ∧ out.length = tn)
      (zstdApplyWith Z inChunk outChunk base src (.fresh tn)) := by
  have htn : (OutObject.fresh tn).cells.length = tn := (OutObject.fresh_wrote tn).length
  unfold zstdApplyWith
  simp only [htn]
  refine (safe_require _ _).bind fun _ _ => ?_
  refine (safe_zcheck _).bind fun _ _ => (safe_zcheck _).bind fun (needed, header) _ => ?_
  refine (safe_require _ _).bind fun _ _ => (safe_require _ _).bind fun _ _ => ?_
  refine (safe_require _ _).bind fun _ _ => ?_
  cases Z.createDCtx with
  | none => trivial
  | some ctx =>
    refine (safe_zcheck _).bind fun ctx₁ _ => (safe_zcheck _).bind fun ctx₂ _ => ?_
    have hloop := applyLoop_safe inChunk src tn hchunk ctx₂ (src.length + tn + 1)
      (Nat.lt_succ_self _)
    cases hrun : run (applyPass Z inChunk outChunk src tn) (.halt .running) (src.length + tn + 1)
        ⟨ctx₂, 0, 0, .fresh tn⟩ with
    | error e =>
      rw [hrun] at hloop
      cases e with
      | thrown t => trivial
      | halt h => exact hloop.elim
    | ok s =>
      obtain ⟨out, hdraws, hout, hlen⟩ := applyLoop_draws inChunk src tn hchunk hrun
      refine (safe_require _ _).bind fun _ hend => ?_
      exact ⟨ctx₂, s.ctx, out, hend.1 ▸ hdraws, hout, hlen.trans hend.2⟩

section
variable {Z : Zstd} {F : Format UInt8} (L : LawfulDecoder F Z.decompressStream)
variable {inChunk outChunk tn : Nat} {src : Bytes}

theorem ApplyState.input_prefix (s : ApplyState Z) : s.input inChunk src <+: src.drop s.read :=
  List.take_prefix _ _

theorem ApplyState.input_or_drop (s : ApplyState Z) (hin : 0 < inChunk) :
    s.input inChunk src ≠ [] ∨ src.drop s.read = [] := by
  by_cases h : src.length ≤ s.read
  · exact .inr (List.drop_eq_nil_of_le h)
  · left
    apply List.ne_nil_of_length_pos
    simp only [input, List.length_take, List.length_drop]
    omega

theorem ApplyState.take_advance {s : ApplyState Z} {r : Reply Z.DCtx UInt8}
    (hw : r.consumed ≤ (s.input inChunk src).length) :
    src.take (s.advance r).read =
      src.take s.read ++ (s.input inChunk src).take r.consumed := by
  simp only [input, List.length_take] at hw
  rw [input, List.take_take, Nat.min_eq_left (by omega), ApplyState.advance, List.take_add]

/-- Soundness of the loop: it ends only where a frame ends, with its content written. -/
theorem applyLoop_sound (hchunk : 0 < outChunk) {ctx : Z.DCtx} {cfg : DecoderConfig UInt8}
    (hat : L.At ctx cfg [] []) {n : Nat} {t : ApplyState Z}
    (hrun : run (applyPass Z inChunk outChunk src tn) (.halt .running) n ⟨ctx, 0, 0, .fresh tn⟩ =
      .ok t) :
    ∃ f, F.frame cfg.history (src.take t.read) = some f ∧ t.dst.Wrote tn f.content ∧
      f.content.length = t.written := by
  refine run_partial (applyPass Z inChunk outChunk src tn) (.halt .running)
    (fun s => s.InRange src tn ∧ ∃ o, s.dst.Wrote tn o ∧ o.length = s.written ∧
      L.At s.ctx cfg (src.take s.read) o)
    (fun x => ∀ t, x = .ok t → ∃ f, F.frame cfg.history (src.take t.read) = some f ∧
      t.dst.Wrote tn f.content ∧ f.content.length = t.written)
    (by simp) ?_ n _ ?_ t hrun
  · rintro s ⟨hs, o, ho, hlen, hat⟩
    have hw := (Z.decompressStream_within s.ctx (s.input inChunk src) (s.room outChunk tn)).1
    rcases applyPass_cases inChunk hchunk hs with ⟨e, -, h⟩ | ⟨k, -, -, h⟩ |
      ⟨k, -, -, -, h⟩ | ⟨k, hres, hfit, -, h⟩ | ⟨hres, hfit, h⟩
    · simp [h, zcheck_error, fail, Pass.Ends]
    · simp [h, fail, Pass.Ends]
    · simp [h, fail, Pass.Ends]
    · obtain ⟨hs', ho', hlen'⟩ := hs.advance ho hlen hw hfit
      rw [h]
      refine ⟨hs', _, ho', hlen', ?_⟩
      rw [ApplyState.take_advance hw]
      exact L.continued hat hres
    · obtain ⟨-, ho', hlen'⟩ := hs.advance ho hlen hw hfit
      obtain ⟨⟨f, hf, hc⟩, -⟩ := L.ended hat hres
      rw [h]
      rintro t ht
      obtain rfl := Except.ok.inj ht
      rw [ApplyState.take_advance hw]
      rw [← hc] at ho' hlen'
      exact ⟨f, hf, ho', hlen'⟩
  · exact ⟨⟨Nat.zero_le _, Nat.zero_le _, (OutObject.fresh_wrote tn).length⟩, [],
      OutObject.fresh_wrote tn, rfl, by simpa using hat⟩

/-- Completeness of the loop: on one accepted frame whose content fills the
output, it ends with all of both. -/
theorem applyLoop_complete (hin : 0 < inChunk) (hout : 0 < outChunk) {ctx : Z.DCtx}
    {cfg : DecoderConfig UInt8} {content : Bytes} (hmid : L.Midway ctx cfg src content)
    (hlen : content.length = tn) {n : Nat} (hn : src.length + tn < n) :
    ∃ t, run (applyPass Z inChunk outChunk src tn) (.halt .running) n ⟨ctx, 0, 0, .fresh tn⟩ =
      .ok t ∧ t.read = src.length ∧ t.written = tn ∧ t.dst.Wrote tn content := by
  refine run_ends (applyPass Z inChunk outChunk src tn) (.halt .running)
    (fun s => s.InRange src tn ∧ ∃ o left, s.dst.Wrote tn o ∧ o.length = s.written ∧
      content = o ++ left ∧ L.Midway s.ctx cfg (src.drop s.read) left)
    (ApplyState.ahead src tn)
    (fun x => ∃ t, x = .ok t ∧ t.read = src.length ∧ t.written = tn ∧ t.dst.Wrote tn content)
    ?_ n _ ?_ (by simpa [ApplyState.ahead] using hn)
  · rintro s ⟨hs, o, left, ho, holen, hjoin, hmid⟩
    have hw := (Z.decompressStream_within s.ctx (s.input inChunk src) (s.room outChunk tn)).1
    have hread := hs.read
    have hleft : left.length = tn - s.written := by
      have := congrArg List.length hjoin
      rw [List.length_append] at this
      omega
    rcases hmid.step (s.room_pos outChunk tn) (.inl s.input_prefix)
        (rfl : s.reply inChunk outChunk src tn = _) with
      ⟨hres, hcons, hprod, -⟩ | ⟨k, left', hres, hcons, hsplit, hmid', hmove⟩
    · have hfit : (s.reply inChunk outChunk src tn).produced.length ≤
          tn - s.written := by rw [hprod, hleft]
      rw [applyPass_end hout hs hres hfit]
      obtain ⟨hs', ho', hlen'⟩ := hs.advance ho holen hw hfit
      refine ⟨_, rfl, ?_, ?_, ?_⟩
      · simp only [ApplyState.advance, hcons, List.length_drop]
        omega
      · simp only [ApplyState.advance, hprod]
        have := hs.written
        omega
      · rw [hprod, ← hjoin] at ho'
        exact ho'
    · have hfit : (s.reply inChunk outChunk src tn).produced.length ≤
          tn - s.written := by
        rw [← hleft, hsplit, List.length_append]
        omega
      have hprogress : (s.reply inChunk outChunk src tn).consumed ≠ 0 ∨
          (s.reply inChunk outChunk src tn).produced ≠ [] := by
        exact (hmove (s.input_or_drop hin)).imp_left Nat.pos_iff_ne_zero.mp
      rw [applyPass_next hout hs hres hfit hprogress]
      obtain ⟨hs', ho', hlen'⟩ := hs.advance ho holen hw hfit
      refine ⟨⟨hs', _, left', ho', hlen', ?_, ?_⟩, hs'.ahead_lt hprogress⟩
      · rw [hjoin, hsplit, List.append_assoc]
      · rw [List.drop_drop] at hmid'
        exact hmid'
  · exact ⟨⟨Nat.zero_le _, Nat.zero_le _, (OutObject.fresh_wrote tn).length⟩, [], content,
      OutObject.fresh_wrote tn, rfl, rfl, by simpa using hmid⟩

end

theorem zstdApplyWith_ok {Z : Zstd} {inChunk outChunk tn : Nat} {base src : Bytes}
    {d : OutObject} :
    zstdApplyWith Z inChunk outChunk base src (.fresh tn) = .ok d ↔
      (base.length ≤ rawMax ∧ tn ≤ rawMax ∧ src.length ≤ payloadMax) ∧
      ∃ header, Z.getFrameHeader src = .ok (0, header) ∧ header.skippable = false ∧
        header.windowSize ≤ 2 ^ zstdWindowLogMax ∧
        (header.frameContentSize = contentSizeUnknown ∨ header.frameContentSize = tn) ∧
      ∃ ctx ctx₁ ctx₂ s, Z.createDCtx = some ctx ∧
        Z.dctxSetWindowLogMax ctx zstdWindowLogMax = .ok ctx₁ ∧
        Z.dctxRefPrefix ctx₁ base = .ok ctx₂ ∧
        run (applyPass Z inChunk outChunk src tn) (.halt .running) (src.length + tn + 1)
          ⟨ctx₂, 0, 0, .fresh tn⟩ = .ok s ∧
        s.read = src.length ∧ s.written = tn ∧ s.dst = d := by
  have htn : (OutObject.fresh tn).cells.length = tn := (OutObject.fresh_wrote tn).length
  unfold zstdApplyWith
  simp only [htn, bind_eq_ok, require_eq_ok, zcheck_eq_ok]
  constructor
  · rintro ⟨-, hlimits, -, -, ⟨needed, header⟩, hheader, -, ⟨rfl, hskip⟩, -, hwindow, -,
      hsize, hrest⟩
    refine ⟨hlimits, header, hheader, hskip, hwindow, hsize, ?_⟩
    cases hctx : Z.createDCtx with
    | none => simp [hctx] at hrest
    | some ctx =>
      simp only [hctx, bind_eq_ok, require_eq_ok, zcheck_eq_ok] at hrest
      obtain ⟨ctx₁, h₁, ctx₂, h₂, s, hrun, -, hend, hd⟩ := hrest
      exact ⟨ctx, ctx₁, ctx₂, s, rfl, h₁, h₂, hrun, hend.1, hend.2, Except.ok.inj hd⟩
  · rintro ⟨hlimits, header, hheader, hskip, hwindow, hsize, ctx, ctx₁, ctx₂, s, hctx, h₁, h₂,
      hrun, hread, hwritten, rfl⟩
    refine ⟨(), hlimits, _, hheader, (0, header), hheader, (), ⟨rfl, hskip⟩, (), hwindow, (),
      hsize, ?_⟩
    simp only [hctx, bind_eq_ok, require_eq_ok, zcheck_eq_ok]
    exact ⟨ctx₁, h₁, ctx₂, h₂, s, hrun, (), ⟨hread, hwritten⟩, rfl⟩

section
variable {Z : Zstd} {F : Format UInt8} (D : DecodingLaws Z F)
variable {inChunk outChunk tn : Nat} {base src : Bytes} {d : OutObject}
include D

theorem zstdApplyWith_sound (hout : 0 < outChunk)
    (h : zstdApplyWith Z inChunk outChunk base src (.fresh tn) = .ok d) :
    ∃ f, F.frame base src = some f ∧ f.skippable = false ∧ f.window ≤ 2 ^ zstdWindowLogMax ∧
      f.content.length = tn ∧ d = ⟨f.content.map some, List.range tn⟩ := by
  obtain ⟨-, header, hheader, hskip, hwindow, -, ctx, ctx₁, ctx₂, s, hctx, h₁, h₂, hrun, hread,
    hwritten, rfl⟩ := zstdApplyWith_ok.mp h
  obtain ⟨ctx₁', h₁', hat₁⟩ := D.windowSet (D.created hctx) (w := zstdWindowLogMax)
    (by decide) (by decide)
  obtain rfl := Except.ok.inj (h₁.symm.trans h₁')
  obtain ⟨ctx₂', h₂', hat₂⟩ := D.prefixSet base hat₁
  obtain rfl := Except.ok.inj (h₂.symm.trans h₂')
  obtain ⟨f, hf, hwrote, hlen⟩ := applyLoop_sound D.dec hout hat₂ hrun
  rw [hread, List.take_length] at hf
  rw [hwritten] at hlen
  obtain ⟨g, hg, hgskip, hgwindow, -⟩ := D.header hf []
  rw [List.append_nil, hheader] at hg
  obtain ⟨-, rfl⟩ := Prod.mk.inj (Except.ok.inj hg)
  exact ⟨f, hf, hgskip ▸ hskip, hgwindow ▸ hwindow, hlen, hwrote.full hlen⟩

theorem zstdApplyWith_complete (hin : 0 < inChunk) (hout : 0 < outChunk)
    (hctx : Z.createDCtx ≠ none) (hb : base.length ≤ rawMax) (hs : src.length ≤ payloadMax)
    (ht : tn ≤ rawMax) {f : Frame UInt8} (hf : F.frame base src = some f)
    (hskip : f.skippable = false) (hwindow : f.window ≤ 2 ^ zstdWindowLogMax)
    (hlen : f.content.length = tn) :
    zstdApplyWith Z inChunk outChunk base src (.fresh tn) =
      .ok ⟨f.content.map some, List.range tn⟩ := by
  obtain ⟨ctx, hctx⟩ := Option.ne_none_iff_exists'.mp hctx
  obtain ⟨ctx₁, h₁, hat₁⟩ := D.windowSet (D.created hctx) (w := zstdWindowLogMax)
    (by decide) (by decide)
  obtain ⟨ctx₂, h₂, hat₂⟩ := D.prefixSet base hat₁
  obtain ⟨s, hrun, hread, hwritten, hwrote⟩ := applyLoop_complete D.dec hin hout
    (D.dec.midway_start hat₂ hf (D.dec.accepts_window hwindow)) hlen (Nat.lt_succ_self _)
  obtain ⟨h, hh, hhskip, hhwindow, hhsize⟩ := D.header hf []
  rw [List.append_nil] at hh
  refine zstdApplyWith_ok.mpr ⟨⟨hb, ht, hs⟩, h, hh, hhskip.trans hskip, hhwindow ▸ hwindow, ?_,
    ctx, ctx₁, ctx₂, s, hctx, h₁, h₂, hrun, hread, hwritten, hwrote.full hlen⟩
  rw [hhsize hskip]
  cases hr : f.recorded with
  | none => exact .inl rfl
  | some n => exact .inr ((f.recorded_eq n (by simp [hr])).trans hlen)

end
end Pyhdiff.Native
