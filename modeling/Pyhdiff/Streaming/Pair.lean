import Pyhdiff.Streaming.Loop

/-! Two programs side by side, and two loops, compared pass by pass. -/
namespace Pyhdiff.Streaming
variable {σ τ α β γ δ ε : Type}

/-- Both fail with the same error, or they return values that correspond. -/
def Corresponds (V : α → β → Prop) : Except ε α → Except ε β → Prop
  | .ok a, .ok b => V a b
  | .error e, .error e' => e = e'
  | _, _ => False

def Pass.Matches (I : σ → τ → Prop) (V : α → β → Prop) : Pass σ α → Pass τ β → Prop
  | .next s, .next t => I s t
  | .stop a, .stop b => V a b
  | _, _ => False

def Pass.value (f : σ → γ) (g : α → γ) : Pass σ α → γ
  | .next s => f s
  | .stop a => g a

section
variable {V : α → β → Prop} {W : γ → δ → Prop} {x : Except ε α} {y : Except ε β}

theorem Corresponds.bind {f : α → Except ε γ} {g : β → Except ε δ} (h : Corresponds V x y)
    (hf : ∀ a b, y = .ok b → V a b → Corresponds W (f a) (g b)) : Corresponds W (x >>= f) (y >>= g) := by
  cases x with
  | error e =>
    cases y with
    | error e' => exact h
    | ok b => exact h.elim
  | ok a =>
    cases y with
    | error e' => exact h.elim
    | ok b => exact hf a b rfl h

theorem Corresponds.mono {V' : α → β → Prop} (h : Corresponds V x y) (hV : ∀ a b, V a b → V' a b) :
    Corresponds V' x y := by
  cases x with
  | error e =>
    cases y with
    | error e' => exact h
    | ok b => exact h.elim
  | ok a =>
    cases y with
    | error e' => exact h.elim
    | ok b => exact hV a b h

theorem Corresponds.and_ok {P : β → Prop} (h : Corresponds V x y) (hP : ∀ b, y = .ok b → P b) :
    Corresponds (fun a b => V a b ∧ P b) x y := by
  cases x with
  | error e =>
    cases y with
    | error e' => exact h
    | ok b => exact h.elim
  | ok a =>
    cases y with
    | error e' => exact h.elim
    | ok b => exact ⟨h, hP b rfl⟩

theorem Corresponds.of_eq {x y : Except ε α} (h : x = y) : Corresponds Eq x y := by
  subst h
  cases x <;> rfl

theorem Corresponds.eq {x y : Except ε α} (h : Corresponds Eq x y) : x = y := by
  cases x with
  | error e =>
    cases y with
    | error e' => exact congrArg Except.error h
    | ok b => exact h.elim
  | ok a =>
    cases y with
    | error e' => exact h.elim
    | ok b => exact congrArg Except.ok h

theorem Corresponds.step {f : α → Except ε γ} {g : α → Except ε δ} (x : Except ε α)
    (hf : ∀ a, x = .ok a → Corresponds W (f a) (g a)) : Corresponds W (x >>= f) (x >>= g) := by
  cases x with
  | error e => rfl
  | ok a => exact hf a rfl

theorem bind_congr_ok {x : Except ε α} {f g : α → Except ε γ} (h : ∀ a, x = .ok a → f a = g a) :
    x >>= f = x >>= g := by
  cases x with
  | error e => rfl
  | ok a => exact h a rfl

end

/-- A loop corresponds to another whose body matches its own pass by pass. -/
theorem run_corresponds {body : σ → Except ε (Pass σ α)} {body' : τ → Except ε (Pass τ β)} {spent : ε}
    {I : σ → τ → Prop} {V : α → β → Prop}
    (hpass : ∀ s t, I s t → Corresponds (Pass.Matches I V) (body s) (body' t)) (n : Nat) {s : σ} {t : τ}
    (h : I s t) : Corresponds V (run body spent n s) (run body' spent n t) := by
  induction n generalizing s t with
  | zero => rfl
  | succ n ih =>
    have hmatch := hpass s t h
    unfold run
    generalize body s = x at hmatch
    generalize body' t = y at hmatch
    cases x with
    | error e =>
      cases y with
      | error e' => exact hmatch
      | ok q => exact hmatch.elim
    | ok p =>
      cases y with
      | error e' => exact hmatch.elim
      | ok q =>
        cases p with
        | next s' =>
          cases q with
          | next t' => exact ih hmatch
          | stop b => exact hmatch.elim
        | stop a =>
          cases q with
          | next t' => exact hmatch.elim
          | stop b => exact hmatch

/-- The second fails with an error in `E`, or the two correspond. -/
def Unless (E : ε → Prop) (V : α → β → Prop) (x : Except ε α) (y : Except ε β) : Prop :=
  (∃ e, E e ∧ y = .error e) ∨ Corresponds V x y

section
variable {E : ε → Prop} {V : α → β → Prop} {W : γ → δ → Prop} {x : Except ε α} {y : Except ε β}

theorem Unless.bind {f : α → Except ε γ} {g : β → Except ε δ} (h : Unless E V x y)
    (hf : ∀ a b, V a b → Unless E W (f a) (g b)) : Unless E W (x >>= f) (y >>= g) := by
  cases h with
  | inl h =>
    obtain ⟨e, he, rfl⟩ := h
    exact .inl ⟨e, he, rfl⟩
  | inr h =>
    cases x with
    | error e =>
      cases y with
      | error e' => exact .inr h
      | ok b => exact h.elim
    | ok a =>
      cases y with
      | error e' => exact h.elim
      | ok b => exact hf a b h

theorem Unless.step {f : α → Except ε γ} {g : α → Except ε δ} (x : Except ε α)
    (hf : ∀ a, Unless E W (f a) (g a)) : Unless E W (x >>= f) (x >>= g) := by
  cases x with
  | error e => exact .inr rfl
  | ok a => exact hf a

end

section
variable {body body' : σ → Except ε (Pass σ α)} {spent : ε} {I : σ → Prop} {P : Except ε α → Prop}

theorem run_congr (hpass : ∀ s, I s → Pass.Ends I P (body s)) (hbody : ∀ s, I s → body s = body' s)
    (n : Nat) {s : σ} (hs : I s) : run body spent n s = run body' spent n s := by
  induction n generalizing s with
  | zero => rfl
  | succ n ih =>
    have hends := hpass s hs
    unfold run
    rw [← hbody s hs]
    cases hb : body s with
    | error e => rfl
    | ok p =>
      cases p with
      | next t => exact ih (by rwa [hb] at hends)
      | stop a => rfl

/-- A loop that only ever leaves more and ends within a bound needs no body that
differs beyond that bound. -/
theorem run_until {μ : σ → Nat} {ν : α → Nat} {bound : Nat}
    (hpass : ∀ s, I s → Pass.Ends (fun t => I t ∧ μ s ≤ μ t) (fun r => ∀ a, r = .ok a → μ s ≤ ν a)
      (body s))
    (hbody : ∀ s p, I s → body s = .ok p → μ s ≤ bound → p.value μ ν ≤ bound → body' s = .ok p)
    {n : Nat} {s : σ} {a : α} (hs : I s) (h : run body spent n s = .ok a) (ha : ν a ≤ bound) :
    run body' spent n s = .ok a ∧ μ s ≤ ν a := by
  induction n generalizing s with
  | zero => cases h
  | succ n ih =>
    have hends := hpass s hs
    unfold run at h ⊢
    cases hb : body s with
    | error e =>
      rw [hb] at h
      cases h
    | ok p =>
      rw [hb] at h hends
      cases p with
      | next t =>
        obtain ⟨ht, hgrows⟩ := hends
        obtain ⟨hrun, hle⟩ := ih ht h
        rw [hbody s _ hs hb (by omega) (Nat.le_trans hle ha)]
        exact ⟨hrun, Nat.le_trans hgrows hle⟩
      | stop c =>
        obtain rfl := Except.ok.inj h
        have hgrows := hends c rfl
        rw [hbody s _ hs hb (by omega) ha]
        exact ⟨rfl, hgrows⟩

end
end Pyhdiff.Streaming
