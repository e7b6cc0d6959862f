import Mathlib.Tactic.Common
import Mathlib.Data.List.Basic

/-! Loops whose body may fail. One pass either stops with an answer or hands a
new state to the next pass; an invariant with a decreasing measure settles
every run. -/
namespace Pyhdiff.Streaming
variable {σ α ε : Type*}

inductive Pass (σ α : Type*) where
  | next (s : σ)
  | stop (a : α)

/-- Run a body for at most the given number of passes. The fault `spent`
answers for a loop that is still running when they are used up. -/
def run (body : σ → Except ε (Pass σ α)) (spent : ε) : Nat → σ → Except ε α
  | 0, _ => .error spent
  | n+1, s => match body s with
    | .error e => .error e
    | .ok (.next t) => run body spent n t
    | .ok (.stop a) => .ok a

def Pass.Ends (I : σ → Prop) (P : Except ε α → Prop) : Except ε (Pass σ α) → Prop
  | .error e => P (.error e)
  | .ok (.next t) => I t
  | .ok (.stop a) => P (.ok a)

theorem Pass.Ends.mono {I J : σ → Prop} {P Q : Except ε α → Prop}
    {x : Except ε (Pass σ α)} (h : Pass.Ends I P x) (hI : ∀ t, I t → J t)
    (hP : ∀ r, P r → Q r) : Pass.Ends J Q x := by
  cases x with
  | error e => exact hP _ h
  | ok p =>
    cases p with
    | next t => exact hI t h
    | stop a => exact hP _ h

theorem Pass.Ends.and {I J : σ → Prop} {P Q : Except ε α → Prop} {x : Except ε (Pass σ α)}
    (h : Pass.Ends I P x) (h' : Pass.Ends J Q x) :
    Pass.Ends (fun t => I t ∧ J t) (fun r => P r ∧ Q r) x := by
  cases x with
  | error e => exact ⟨h, h'⟩
  | ok p =>
    cases p with
    | next t => exact ⟨h, h'⟩
    | stop a => exact ⟨h, h'⟩

theorem Pass.Ends.of_ok {I : σ → Prop} {Q : α → Prop} {x : Except ε (Pass σ α)}
    (hnext : ∀ t, x = .ok (.next t) → I t) (hstop : ∀ a, x = .ok (.stop a) → Q a) :
    Pass.Ends I (fun r => ∀ a, r = .ok a → Q a) x := by
  cases x with
  | error e => rintro a ⟨⟩
  | ok p =>
    cases p with
    | next t => exact hnext t rfl
    | stop a =>
      rintro b ⟨⟩
      exact hstop a rfl

/-- Total correctness: the measure bounds the passes, so `spent` never shows
unless a pass itself ends with it. -/
theorem run_ends (body : σ → Except ε (Pass σ α)) (spent : ε)
    (I : σ → Prop) (μ : σ → Nat) (P : Except ε α → Prop)
    (hpass : ∀ s, I s → Pass.Ends (fun t => I t ∧ μ t < μ s) P (body s))
    (n : Nat) (s : σ) (hs : I s) (hn : μ s < n) : P (run body spent n s) := by
  induction n generalizing s with
  | zero => omega
  | succ n ih =>
    have h := hpass s hs
    unfold run
    cases hb : body s with
    | error e => simpa [hb, Pass.Ends] using h
    | ok p =>
      cases p with
      | next t =>
        have ht : I t ∧ μ t < μ s := by simpa [hb, Pass.Ends] using h
        exact ih t ht.1 (by omega)
      | stop a => simpa [hb, Pass.Ends] using h

/-- Partial correctness: an ending that is not the fault `spent` satisfies `P`. -/
theorem run_partial (body : σ → Except ε (Pass σ α)) (spent : ε)
    (I : σ → Prop) (P : Except ε α → Prop) (hspent : P (.error spent))
    (hpass : ∀ s, I s → Pass.Ends I P (body s))
    (n : Nat) (s : σ) (hs : I s) : P (run body spent n s) := by
  induction n generalizing s with
  | zero => exact hspent
  | succ n ih =>
    have h := hpass s hs
    unfold run
    cases hb : body s with
    | error e => simpa [hb, Pass.Ends] using h
    | ok p =>
      cases p with
      | next t => exact ih t (by simpa [hb, Pass.Ends] using h)
      | stop a => simpa [hb, Pass.Ends] using h

theorem run_mono {body body' : σ → Except ε (Pass σ α)} {spent : ε}
    (hbody : ∀ s r, body s = .ok r → body' s = .ok r) {n : Nat} {s : σ} {a : α}
    (h : run body spent n s = .ok a) : run body' spent n s = .ok a := by
  induction n generalizing s with
  | zero => cases h
  | succ n ih =>
    unfold run at h ⊢
    cases hb : body s with
    | error e =>
      rw [hb] at h
      cases h
    | ok p =>
      rw [hbody s p hb]
      rw [hb] at h
      cases p with
      | next t => exact ih h
      | stop b => exact h

inductive Reaches (body : σ → Except ε (Pass σ α)) (s : σ) : σ → Prop
  | start : Reaches body s s
  | pass {t u : σ} : Reaches body s t → body t = .ok (.next u) → Reaches body s u

theorem Reaches.invariant {body : σ → Except ε (Pass σ α)} {s t : σ} {I : σ → Prop}
    {P : Except ε α → Prop} (hpass : ∀ s, I s → Pass.Ends I P (body s)) (hs : I s)
    (h : Reaches body s t) : I t := by
  induction h with
  | start => exact hs
  | pass _ hb ih => simpa [hb, Pass.Ends] using hpass _ ih

def repeatWhile (cond : σ → Bool) (step : σ → σ) : Nat → σ → σ
  | 0, s => s
  | n+1, s => if cond s then repeatWhile cond step n (step s) else s

theorem repeatWhile_ends (cond : σ → Bool) (step : σ → σ) (I : σ → Prop) (μ : σ → Nat)
    (hstep : ∀ s, I s → cond s = true → I (step s) ∧ μ (step s) < μ s) (n : Nat) (s : σ)
    (hs : I s) (hn : μ s ≤ n) :
    I (repeatWhile cond step n s) ∧ cond (repeatWhile cond step n s) = false := by
  induction n generalizing s with
  | zero =>
    refine ⟨hs, Bool.eq_false_iff.mpr fun hc => ?_⟩
    have := (hstep s hs hc).2
    omega
  | succ n ih =>
    unfold repeatWhile
    cases hc : cond s with
    | false => exact ⟨hs, hc⟩
    | true =>
      obtain ⟨hs', hlt⟩ := hstep s hs hc
      exact ih (step s) hs' (by omega)

end Pyhdiff.Streaming
