import Pyhdiff.Ownership.Arena
import Pyhdiff.Streaming.Loop

/-! Programs that own blocks of an arena: they create, use and destroy them, and
a scope destroys what it owns whether it is left by returning or by an
exception. Such a program refines a plain computation that knows no addresses. -/
namespace Pyhdiff.Ownership
open Streaming

/-- The faults that unwind the scopes they leave; the others end the program. -/
class Unwinding (ε : Type) where
  unwinds : ε → Bool

open Unwinding (unwinds)

/-- `wild` is an access to an address where no block for it lives. -/
inductive Ending (ε : Type) where
  | fault (e : ε)
  | wild

abbrev Action (ε β o α : Type) := EStateM (Ending ε) (Arena β × o) α

section
variable {ε β o o' α γ σ : Type}

def lift (x : Except ε α) : Action ε β o α := fun s =>
  match x with
  | .ok a => .ok a s
  | .error e => .error (.fault e) s

def object : Action ε β o o := fun s => .ok s.2 s

def setObject (x : o) : Action ε β o Unit := fun s => .ok () (s.1, x)

def wild : Action ε β o α := fun s => .error .wild s

def create (P : Placement β) (b : β) : Action ε β o Nat := fun s =>
  .ok (P.place s.1 b) (s.1.insert (P.place s.1 b) b, s.2)

def destroy (p : Nat) : Action ε β o Unit := fun s =>
  match s.1.lookup p with
  | some _ => .ok () (s.1.erase p, s.2)
  | none => .error .wild s

/-- Put in place of the block at `p` what `f` makes of it; `none` is out of the block. -/
def access (p : Nat) (f : β → Option β) : Action ε β o Unit := fun s =>
  match s.1.lookup p >>= f with
  | some b => .ok () (s.1.insert p b, s.2)
  | none => .error .wild s

def touch (p : Nat) (kind : β → Bool) : Action ε β o Unit :=
  access p fun b => if kind b then some b else none

/-- A body with what it owns: the destructors run when it returns and when it
throws, not when the program ends in it. -/
def owning [Unwinding ε] (body : Action ε β o α) (final : Action ε β o Unit) : Action ε β o α :=
  fun s => match body s with
  | .ok a t => match final t with
    | .ok _ u => .ok a u
    | .error e u => .error e u
  | .error (.fault e) t =>
    if unwinds e then match final t with
      | .ok _ u => .error (.fault e) u
      | .error e' u => .error e' u
    else .error (.fault e) t
  | .error .wild t => .error .wild t

def holding [Unwinding ε] (P : Placement β) (b : β) (body : Nat → Action ε β o α) : Action ε β o α := do
  let p ← create P b
  owning (body p) (destroy p)

def locally (x : o') (body : Action ε β o' α) : Action ε β o α := fun s =>
  match body (s.1, x) with
  | .ok a t => .ok a (t.1, s.2)
  | .error e t => .error e (t.1, s.2)

def loop (body : σ → Action ε β o (Pass σ α)) (spent : ε) : Nat → σ → Action ε β o α
  | 0, _ => lift (.error spent)
  | n+1, s => do
    match ← body s with
    | .next t => loop body spent n t
    | .stop a => return a

theorem object_bind {s : Arena β × o} (f : o → Action ε β o α) : (object >>= f) s = f s.2 s := rfl

theorem setObject_bind {s : Arena β × o} {x : o} (f : Unit → Action ε β o α) :
    (setObject x >>= f) s = f () (s.1, x) := rfl

theorem bind_returns {s t : Arena β × o} {m : Action ε β o α} {a : α} (f : α → Action ε β o γ)
    (h : m s = .ok a t) : (m >>= f) s = f a t := by
  simp only [Bind.bind, EStateM.bind, h]

theorem destroy_lookup {p : Nat} {b : β} {t : Arena β × o} (h : t.1.lookup p = some b) :
    (destroy p : Action ε β o Unit) t = .ok () (t.1.erase p, t.2) := by
  simp only [destroy, h]

theorem touch_bind {s : Arena β × o} {p : Nat} {kind : β → Bool} {b : β} (f : Unit → Action ε β o α)
    (h : s.1.lookup p = some b) (hb : kind b = true) : (touch p kind >>= f) s = f () s := by
  have htouch : (touch p kind : Action ε β o Unit) s = .ok () s := by
    simp only [touch, access, h, Option.bind_eq_bind, Option.bind_some, hb, if_true, insert_lookup h]
  exact bind_returns f htouch

end

section
variable {ε β o o' α α' γ γ' σ σ' : Type} [Unwinding ε]

/-- The action ends as a plain computation does. It returns a value that stands
in `R` to the plain one, or the same fault; where that unwinds, it leaves the
state as `U` says. No such action is wild. -/
def Refines (R : α → γ → Arena β × o → Prop) (U : Arena β × o → Prop) :
    EStateM.Result (Ending ε) (Arena β × o) α → Except ε γ → Prop
  | .ok a t, .ok c => R a c t
  | .error (.fault e) t, .error e' => e = e' ∧ (unwinds e = true → U t)
  | _, _ => False

variable {R : α → γ → Arena β × o → Prop} {U : Arena β × o → Prop}
variable {s : Arena β × o} {m : Action ε β o α} {x : Except ε γ}

theorem Refines.bind {R' : α' → γ' → Arena β × o → Prop} {f : α → Action ε β o α'}
    {g : γ → Except ε γ'} (h : Refines R U (m s) x)
    (hf : ∀ a c t, R a c t → Refines R' U (f a t) (g c)) :
    Refines R' U ((m >>= f) s) (x >>= g) := by
  simp only [Bind.bind, EStateM.bind]
  cases hm : m s with
  | ok a t =>
    rw [hm] at h
    cases x with
    | ok c => exact hf a c t h
    | error e => exact h.elim
  | error e t =>
    rw [hm] at h
    cases e with
    | wild => exact h.elim
    | fault e =>
      cases x with
      | ok c => exact h.elim
      | error e' => exact h

theorem refines_ok {a : α} {c : γ} (h : R a c s) : Refines (ε := ε) R U (.ok a s) (.ok c) := h

theorem Refines.step {y : Except ε α'} {f : α' → Action ε β o α} {g : α' → Except ε γ}
    (hU : U s) (hf : ∀ a, y = .ok a → Refines R U (f a s) (g a)) :
    Refines R U ((lift y >>= f) s) (y >>= g) := by
  cases y with
  | error e => exact ⟨rfl, fun _ => hU⟩
  | ok a => exact hf a rfl

theorem Refines.lift {y : Except ε α} {R : α → α → Arena β × o → Prop} (hU : U s)
    (hR : ∀ a, y = .ok a → R a a s) : Refines R U (lift y s) y := by
  cases y with
  | error e => exact ⟨rfl, fun _ => hU⟩
  | ok a => exact hR a rfl

theorem Refines.owning {R' : α → γ → Arena β × o → Prop} {U' : Arena β × o → Prop}
    {final : Action ε β o Unit} (h : Refines R U (m s) x)
    (hreturn : ∀ a c t, R a c t → ∃ u, final t = .ok () u ∧ R' a c u)
    (hunwind : ∀ t, U t → ∃ u, final t = .ok () u ∧ U' u) :
    Refines R' U' (owning m final s) x := by
  unfold Ownership.owning
  cases hm : m s with
  | ok a t =>
    rw [hm] at h
    cases x with
    | error e => exact h.elim
    | ok c =>
      obtain ⟨u, hfinal, hu⟩ := hreturn a c t h
      simp only [hfinal]
      exact hu
  | error e t =>
    rw [hm] at h
    cases e with
    | wild => exact h.elim
    | fault e =>
      cases x with
      | ok c => exact h.elim
      | error e' =>
        obtain ⟨rfl, hthrown⟩ := h
        by_cases hunwinds : unwinds e = true
        · obtain ⟨u, hfinal, hu⟩ := hunwind t (hthrown hunwinds)
          simp only [hunwinds, if_true, hfinal]
          exact ⟨rfl, fun _ => hu⟩
        · simp only [hunwinds, Bool.false_eq_true, if_false]
          exact ⟨rfl, fun h => absurd h hunwinds⟩

theorem Refines.holding {P : Placement β} {b : β} {body : Nat → Action ε β o α}
    {R' : Nat → α → γ → Arena β × o → Prop} {U' : Nat → Arena β × o → Prop}
    (hbody : ∀ p, p ∉ s.1 → Refines (R' p) (U' p) (body p (s.1.insert p b, s.2)) x)
    (hreturn : ∀ p a c t, p ∉ s.1 → R' p a c t → t.1.lookup p = some b ∧ R a c (t.1.erase p, t.2))
    (hunwind : ∀ p t, p ∉ s.1 → U' p t → t.1.lookup p = some b ∧ U (t.1.erase p, t.2)) :
    Refines R U (holding P b body s) x := by
  have hfresh := P.fresh s.1 b
  refine (hbody _ hfresh).owning ?_ ?_
  · intro a c t ht
    obtain ⟨hlookup, hR⟩ := hreturn _ a c t hfresh ht
    exact ⟨_, destroy_lookup hlookup, hR⟩
  · intro t ht
    obtain ⟨hlookup, hU⟩ := hunwind _ t hfresh ht
    exact ⟨_, destroy_lookup hlookup, hU⟩

theorem Refines.locally {R' : α → γ → Arena β × o' → Prop} {U' : Arena β × o' → Prop} {a₀ : Arena β}
    {y : o'} {z : o} (h : Refines R U (m (a₀, z)) x) (hreturn : ∀ a c t, R a c t → R' a c (t.1, y))
    (hunwind : ∀ t, U t → U' (t.1, y)) : Refines R' U' (locally z m (a₀, y)) x := by
  unfold Ownership.locally
  cases hm : m (a₀, z) with
  | ok a t =>
    rw [hm] at h
    cases x with
    | error e => exact h.elim
    | ok c => exact hreturn a c t h
  | error e t =>
    rw [hm] at h
    cases e with
    | wild => exact h.elim
    | fault e =>
      cases x with
      | ok c => exact h.elim
      | error e' => exact ⟨h.1, fun he => hunwind t (h.2 he)⟩

def Pass.Related (I : σ → σ' → Arena β × o → Prop) (R : α → γ → Arena β × o → Prop) :
    Pass σ α → Pass σ' γ → Arena β × o → Prop
  | .next s, .next s', t => I s s' t
  | .stop a, .stop c, t => R a c t
  | _, _, _ => False

theorem Refines.loop {body : σ → Action ε β o (Pass σ α)} {plain : σ' → Except ε (Pass σ' γ)}
    {I : σ → σ' → Arena β × o → Prop} {spent : ε} (hspent : unwinds spent = false)
    (hpass : ∀ s s' t, I s s' t → Refines (Pass.Related I R) U (body s t) (plain s'))
    {a : σ} {a' : σ'} (n : Nat) (h : I a a' s) :
    Refines R U (loop body spent n a s) (run plain spent n a') := by
  induction n generalizing a a' s with
  | zero => exact ⟨rfl, fun he => absurd he (by rw [hspent]; exact Bool.false_ne_true)⟩
  | succ n ih =>
    have hrun : run plain spent (n+1) a' = (plain a' >>= fun p => match p with
        | .next t => run plain spent n t
        | .stop c => .ok c) := by
      rw [run]
      cases plain a' with
      | error e => rfl
      | ok p => cases p <;> rfl
    rw [hrun]
    refine (hpass a a' s h).bind fun p p' t hp => ?_
    cases p with
    | next b =>
      cases p' with
      | next b' => exact ih hp
      | stop c => exact hp.elim
    | stop b =>
      cases p' with
      | next b' => exact hp.elim
      | stop c => exact hp

end
end Pyhdiff.Ownership
