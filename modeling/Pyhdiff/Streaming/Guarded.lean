import Pyhdiff.Streaming.Loop

/-! Loops that poll before each pass whether they may go on. A refused loop is a
loop that was given so many passes and no more. -/
namespace Pyhdiff.Streaming
variable {σ α ε κ : Type*}

def guarded (poll : κ → Except ε κ) (body : σ → Except ε (Pass σ α)) (s : σ × κ) :
    Except ε (Pass (σ × κ) α) :=
  match poll s.2 with
  | .error e => .error e
  | .ok c => match body s.1 with
    | .error e => .error e
    | .ok (.next t) => .ok (.next (t, c))
    | .ok (.stop a) => .ok (.stop a)

def Granted (poll : κ → Except ε κ) : Nat → κ → Prop
  | 0, _ => True
  | n+1, c => ∃ c', poll c = .ok c' ∧ Granted poll n c'

/-- The next `k` polls succeed, and the one after them fails with `e`. -/
def RefusedAt (poll : κ → Except ε κ) (e : ε) : Nat → κ → Prop
  | 0, c => poll c = .error e
  | k+1, c => ∃ c', poll c = .ok c' ∧ RefusedAt poll e k c'

inductive After (body : σ → Except ε (Pass σ α)) : Nat → σ → σ → Prop
  | start (s : σ) : After body 0 s s
  | pass {k : Nat} {s t u : σ} : body s = .ok (.next t) → After body k t u → After body (k+1) s u

section
variable {poll : κ → Except ε κ} {body : σ → Except ε (Pass σ α)} {spent e : ε} {s t : σ} {c : κ}
variable {k n : Nat}

theorem Granted.mono {m : Nat} (h : Granted poll n c) (hm : m ≤ n) : Granted poll m c := by
  induction m generalizing n c with
  | zero => trivial
  | succ m ih =>
    cases n with
    | zero => omega
    | succ n =>
      obtain ⟨c', hpoll, h⟩ := h
      exact ⟨c', hpoll, ih h (by omega)⟩

theorem RefusedAt.granted (h : RefusedAt poll e k c) : Granted poll k c := by
  induction k generalizing c with
  | zero => trivial
  | succ k ih =>
    obtain ⟨c', hpoll, h⟩ := h
    exact ⟨c', hpoll, ih h⟩

theorem run_guarded_pass {c' : κ} (hpoll : poll c = .ok c') (n : Nat) :
    run (guarded poll body) spent (n+1) (s, c) =
      match body s with
      | .error e => .error e
      | .ok (.next t) => run (guarded poll body) spent n (t, c')
      | .ok (.stop a) => .ok a := by
  have hpass : guarded poll body (s, c) =
      match body s with
      | .error e => .error e
      | .ok (.next t) => .ok (.next (t, c'))
      | .ok (.stop a) => .ok (.stop a) := by
    simp only [guarded, hpoll]
  rw [run, hpass]
  cases body s with
  | error e => rfl
  | ok p => cases p <;> rfl

/-- A loop all of whose polls succeed runs as if it did not poll. -/
theorem run_guarded_granted (h : Granted poll n c) :
    run (guarded poll body) spent n (s, c) = run body spent n s := by
  induction n generalizing s c with
  | zero => rfl
  | succ n ih =>
    obtain ⟨c', hpoll, h⟩ := h
    simp only [run_guarded_pass hpoll, ih h]
    rfl

/-- A refused loop is the loop with the passes before the refusal, and with the
refusal for an answer to their being used up. -/
theorem run_guarded_refused (h : RefusedAt poll e k c) (hk : k < n) :
    run (guarded poll body) spent n (s, c) = run body e k s := by
  induction k generalizing s c n with
  | zero =>
    obtain ⟨n, rfl⟩ := Nat.exists_eq_succ_of_ne_zero (by omega : n ≠ 0)
    have hpoll : poll c = .error e := h
    simp only [run, guarded, hpoll]
  | succ k ih =>
    obtain ⟨n, rfl⟩ := Nat.exists_eq_succ_of_ne_zero (by omega : n ≠ 0)
    obtain ⟨c', hpoll, h⟩ := h
    simp only [run_guarded_pass hpoll, ih h (by omega : k < n)]
    rfl

theorem run_fewer (body : σ → Except ε (Pass σ α)) (spent e : ε) (s : σ) (hk : k ≤ n) :
    (∃ t, After body k s t ∧ run body e k s = .error e) ∨
      ((¬ ∃ t, After body k s t) ∧ run body e k s = run body spent n s) := by
  induction k generalizing s n with
  | zero => exact .inl ⟨s, .start s, rfl⟩
  | succ k ih =>
    obtain ⟨n, rfl⟩ := Nat.exists_eq_succ_of_ne_zero (by omega : n ≠ 0)
    unfold run
    cases hb : body s with
    | error e' =>
      refine .inr ⟨?_, rfl⟩
      rintro ⟨t, hafter⟩
      cases hafter with
      | pass hb' _ => simp [hb] at hb'
    | ok p =>
      cases p with
      | stop a =>
        refine .inr ⟨?_, rfl⟩
        rintro ⟨t, hafter⟩
        cases hafter with
        | pass hb' _ => simp [hb] at hb'
      | next t =>
        refine (ih t (by omega : k ≤ n)).imp ?_ ?_
        · rintro ⟨u, hafter, hrun⟩
          exact ⟨u, .pass hb hafter, hrun⟩
        · rintro ⟨hno, hrun⟩
          refine ⟨?_, hrun⟩
          rintro ⟨u, hafter⟩
          cases hafter with
          | pass hb' hafter =>
            rw [hb] at hb'
            cases hb'
            exact hno ⟨u, hafter⟩

theorem After.run_spent (h : After body k s t) : run body spent k s = .error spent := by
  cases run_fewer body spent spent s (Nat.le_refl k) with
  | inl hgoing =>
    obtain ⟨-, -, hrun⟩ := hgoing
    exact hrun
  | inr hended => exact absurd ⟨t, h⟩ hended.1

theorem After.invariant {I : σ → Prop} {P : Except ε α → Prop}
    (hpass : ∀ s, I s → Pass.Ends I P (body s)) (h : After body k s t) (hs : I s) : I t := by
  induction h with
  | start s => exact hs
  | pass hb _ ih => exact ih (by simpa [hb, Pass.Ends] using hpass _ hs)

end

end Pyhdiff.Streaming
