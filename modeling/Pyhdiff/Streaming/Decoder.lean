import Mathlib.Algebra.GroupWithZero.Nat
import Pyhdiff.Streaming.Format

/-! Streaming decoders: what a call may do, and what a lawful decoder of a
format does with every split of its input and output. -/
namespace Pyhdiff.Streaming
variable {α σ : Type*}

/-- The outcome of one streaming call: an error code or a hint, how far the
input cursor moved, and the symbols stored at the output cursor. -/
structure Reply (σ α : Type*) where
  ctx : σ
  result : Except Nat Nat
  consumed : Nat
  produced : List α

def Reply.Within (r : Reply σ α) (input : List α) (room : Nat) : Prop :=
  r.consumed ≤ input.length ∧ r.produced.length ≤ room

/-- A client that has shown a decoder the first `read` symbols of a source, in
calls that each offered some of what came next: all that came out is `out`. -/
inductive Draws (call : σ → List α → Nat → Reply σ α) (src : List α) (ctx₀ : σ) :
    σ → Nat → List α → Prop
  | start : Draws call src ctx₀ ctx₀ 0 []
  | call {ctx : σ} {read : Nat} {out input : List α} {room k : Nat} :
    Draws call src ctx₀ ctx read out → input <+: src.drop read →
    (call ctx input room).result = .ok k →
    Draws call src ctx₀ (call ctx input room).ctx (read + (call ctx input room).consumed)
      (out ++ (call ctx input room).produced)

theorem Draws.append {call : σ → List α → Nat → Reply σ α} {src : List α} {ctx₀ ctx : σ} {read : Nat}
    {out : List α} (h : Draws call src ctx₀ ctx read out) (t : List α) :
    Draws call (src ++ t) ctx₀ ctx read out := by
  induction h with
  | start => exact .start
  | call _ hinput hok ih =>
    refine ih.call (hinput.trans ?_) hok
    rw [List.drop_append]
    exact List.prefix_append _ _

structure DecoderConfig (α : Type*) where
  history : List α
  windowLog : Nat

/-- The history belongs to one frame; the next frame has none. -/
def DecoderConfig.nextFrame (cfg : DecoderConfig α) : DecoderConfig α :=
  { cfg with history := [] }

/-- A decoder is lawful when its context can be read as a position: `At ctx cfg c o`
says that since the last frame ended it has taken `c` and given out `o`.
The hint 0 comes exactly on the call that completes and flushes the frame. A
call on a frame the configuration accepts never fails, stays inside the frame
and its content, and moves a cursor while there is something left to move.
Other frames may still be decoded under some splits. -/
structure LawfulDecoder (F : Format α) (call : σ → List α → Nat → Reply σ α) where
  At : σ → DecoderConfig α → List α → List α → Prop
  accepts : DecoderConfig α → Frame α → Prop
  accepts_window : ∀ {cfg f}, f.window ≤ 2 ^ cfg.windowLog → accepts cfg f
  within : ∀ ctx input room, (call ctx input room).Within input room
  pending : ∀ {ctx cfg c o f}, At ctx cfg c o → F.frame cfg.history c = some f → f.content ≠ o
  ended : ∀ {ctx cfg c o input room}, At ctx cfg c o → (call ctx input room).result = .ok 0 →
    (∃ f, F.frame cfg.history (c ++ input.take (call ctx input room).consumed) = some f ∧
      f.content = o ++ (call ctx input room).produced) ∧
    At (call ctx input room).ctx cfg.nextFrame [] []
  continued : ∀ {ctx cfg c o input room k}, At ctx cfg c o →
    (call ctx input room).result = .ok (k+1) →
    At (call ctx input room).ctx cfg (c ++ input.take (call ctx input room).consumed)
      (o ++ (call ctx input room).produced)
  decodes : ∀ {ctx cfg c o rest f input room}, At ctx cfg c o →
    F.frame cfg.history (c ++ rest) = some f → accepts cfg f → 0 < room →
    (input <+: rest ∨ rest <+: input) →
    ∃ k, (call ctx input room).result = .ok k ∧
      (call ctx input room).consumed ≤ rest.length ∧
      o ++ (call ctx input room).produced <+: f.content ∧
      (k ≠ 0 → (input ≠ [] ∨ rest = []) →
        0 < (call ctx input room).consumed ∨ (call ctx input room).produced ≠ [])

namespace LawfulDecoder
variable {F : Format α} {call : σ → List α → Nat → Reply σ α} (L : LawfulDecoder F call)

def EndsOnly (cfg : DecoderConfig α) (P : Frame α → Prop) : Prop :=
  ∀ {ctx c o input room f}, L.At ctx cfg c o → (call ctx input room).result = .ok 0 →
    F.frame cfg.history (c ++ input.take (call ctx input room).consumed) = some f → P f

theorem endsOnly_any (cfg : DecoderConfig α) : L.EndsOnly cfg fun _ => True :=
  fun _ _ _ => trivial

/-- The split does not decide what is accepted. A zstd that is shown a whole frame
with room for all of it skips the check of the window, so it is strict only on
sources whose frames are within the configured window. -/
def Strict : Prop := ∀ cfg, L.EndsOnly cfg (L.accepts cfg)

/-- Inside an accepted frame: `rest` is still to be read, `left` to be given out. -/
def Midway (ctx : σ) (cfg : DecoderConfig α) (rest left : List α) : Prop :=
  ∃ c o f, L.At ctx cfg c o ∧ F.frame cfg.history (c ++ rest) = some f ∧
    L.accepts cfg f ∧ f.content = o ++ left

theorem midway_start {ctx : σ} {cfg : DecoderConfig α} {s : List α} {f : Frame α}
    (hat : L.At ctx cfg [] []) (hf : F.frame cfg.history s = some f)
    (ha : L.accepts cfg f) : L.Midway ctx cfg s f.content :=
  ⟨[], [], f, hat, hf, ha, rfl⟩

variable {L}

theorem Midway.not_done {ctx : σ} {cfg : DecoderConfig α} {rest left : List α}
    (h : L.Midway ctx cfg rest left) : rest ≠ [] ∨ left ≠ [] := by
  obtain ⟨c, o, f, hat, hf, -, hc⟩ := h
  by_contra hn
  simp only [not_or, not_not] at hn
  obtain ⟨rfl, rfl⟩ := hn
  rw [List.append_nil] at hf hc
  exact L.pending hat hf hc

/-- What one call does inside an accepted frame, whatever part of the input it
is shown: it ends the frame, or moves on and stays inside. -/
theorem Midway.step {ctx : σ} {cfg : DecoderConfig α} {rest left input : List α} {room : Nat}
    (h : L.Midway ctx cfg rest left) (hroom : 0 < room)
    (hin : input <+: rest ∨ rest <+: input) {r : Reply σ α} (hr : r = call ctx input room) :
    (r.result = .ok 0 ∧ r.consumed = rest.length ∧ r.produced = left ∧
      L.At r.ctx cfg.nextFrame [] []) ∨
    (∃ k left', r.result = .ok (k+1) ∧ r.consumed ≤ rest.length ∧
      left = r.produced ++ left' ∧ L.Midway r.ctx cfg (rest.drop r.consumed) left' ∧
      (input ≠ [] ∨ rest = [] → 0 < r.consumed ∨ r.produced ≠ [])) := by
  subst hr
  obtain ⟨c, o, f, hat, hf, ha, hc⟩ := h
  obtain ⟨k, hk, hle, hpre, hmove⟩ := L.decodes hat hf ha hroom hin
  have hw := (L.within ctx input room).1
  have htake : input.take (call ctx input room).consumed =
      rest.take (call ctx input room).consumed := by
    cases hin with
    | inl h =>
      obtain ⟨u, rfl⟩ := h
      rw [List.take_append_of_le_length hw]
    | inr h =>
      obtain ⟨u, rfl⟩ := h
      rw [List.take_append_of_le_length hle]
  obtain ⟨left', hleft⟩ := hpre
  have hl : left = (call ctx input room).produced ++ left' := by
    rw [hc, List.append_assoc] at hleft
    exact (List.append_cancel_left hleft).symm
  cases k with
  | zero =>
    obtain ⟨⟨g, hg, hgc⟩, hnext⟩ := L.ended hat hk
    have hlen : (call ctx input room).consumed = rest.length :=
      F.length_eq hf hg hw hin
    have hfg : f = g := by
      rw [htake, hlen, List.take_length, hf] at hg
      exact Option.some.inj hg
    subst hfg
    exact .inl ⟨hk, hlen, (List.append_cancel_left (hc.symm.trans hgc)).symm, hnext⟩
  | succ k =>
    refine .inr ⟨k, left', hk, hle, hl, ?_, hmove (by omega)⟩
    refine ⟨_, _, f, L.continued hat hk, ?_, ha, ?_⟩
    · rw [htake, List.append_assoc, List.take_append_drop]
      exact hf
    · rw [hc, hl, List.append_assoc]

end LawfulDecoder
end Pyhdiff.Streaming
