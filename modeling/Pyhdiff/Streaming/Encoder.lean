import Pyhdiff.Streaming.Decoder

/-! Streaming encoders: a job fed in pieces and closed, and what it emits. -/
namespace Pyhdiff.Streaming
variable {α σ π : Type*}

inductive EndDirective where
  | eContinue | eEnd
  deriving DecidableEq

structure Job (π α : Type*) where
  params : π
  history : List α
  pledged : Nat

/-- Once a job is being closed with `rest` unread, the next call closes it with
exactly that rest; before, any call will do. -/
def Admissible (closing : Option (List α)) (input : List α) (op : EndDirective) : Prop :=
  closing = none ∨ (closing = some input ∧ op = .eEnd)

/-- An encoder is lawful when its context can be read as a job in progress:
`Fed ctx job src out closing` says it has taken `src` and given out `out`.
Closing a job that was fed the pledged length completes exactly one frame. -/
structure LawfulEncoder (F : Format α) (π : Type*)
    (call : σ → List α → Nat → EndDirective → Reply σ α) where
  Fed : σ → Job π α → List α → List α → Option (List α) → Prop
  emits : Job π α → Frame α → Prop
  within : ∀ ctx input room op, (call ctx input room op).Within input room
  continued : ∀ {ctx job src out closing input room op k},
    Fed ctx job src out closing → Admissible closing input op →
    (call ctx input room op).result = .ok k → (op = .eEnd → k ≠ 0) →
    Fed (call ctx input room op).ctx job
      (src ++ input.take (call ctx input room op).consumed)
      (out ++ (call ctx input room op).produced)
      (if op = .eEnd then some (input.drop (call ctx input room op).consumed) else none)
  closed : ∀ {ctx job src out closing} (input room),
    Fed ctx job src out closing → Admissible closing input .eEnd →
    (call ctx input room .eEnd).result = .ok 0 →
    src.length + input.length = job.pledged →
    ∃ f, F.frame job.history (out ++ (call ctx input room .eEnd).produced) = some f ∧
      emits job f ∧ f.skippable = false ∧ f.content = src ++ input

def directive (last : Prop) [Decidable last] : EndDirective := if last then .eEnd else .eContinue

section
variable {last : Prop} [Decidable last]

theorem directive_eq_eEnd : directive last = .eEnd ↔ last := by
  unfold directive
  split
  · exact iff_of_true rfl ‹last›
  · exact iff_of_false (by simp) ‹¬ last›

theorem directive_eq_eContinue : directive last = .eContinue ↔ ¬ last := by
  unfold directive
  split
  · exact iff_of_false (by simp) (not_not.mpr ‹last›)
  · exact iff_of_true rfl ‹¬ last›

theorem directive_admissible {closing : Option (List α)} {input : List α}
    (h : closing = none ∨ (closing = some input ∧ last)) :
    Admissible closing input (directive last) := by
  cases h with
  | inl h => exact .inl h
  | inr h =>
    obtain ⟨h, hlast⟩ := h
    exact .inr ⟨h, directive_eq_eEnd.mpr hlast⟩

variable {F : Format α} {call : σ → List α → Nat → EndDirective → Reply σ α}
variable {L : LawfulEncoder F π call} {ctx : σ} {job : Job π α} {src out input : List α}
variable {closing : Option (List α)} {room k : Nat} {r : Reply σ α}

theorem LawfulEncoder.feeds (hfed : L.Fed ctx job src out closing)
    (hclosing : closing = none ∨ (closing = some input ∧ last))
    (hr : r = call ctx input room (directive last)) (hres : r.result = .ok k)
    (hgoing : last → k ≠ 0) :
    L.Fed r.ctx job (src ++ input.take r.consumed) (out ++ r.produced)
      (if last then some (input.drop r.consumed) else none) := by
  subst hr
  have hnext := L.continued hfed (directive_admissible hclosing) hres
    fun hop => hgoing (directive_eq_eEnd.mp hop)
  simpa only [directive_eq_eEnd] using hnext

theorem LawfulEncoder.ends (hfed : L.Fed ctx job src out closing)
    (hclosing : closing = none ∨ (closing = some input ∧ last)) (hlast : last)
    (hr : r = call ctx input room (directive last)) (hres : r.result = .ok 0)
    (hall : src.length + input.length = job.pledged) :
    ∃ f, F.frame job.history (out ++ r.produced) = some f ∧ L.emits job f ∧
      f.skippable = false ∧ f.content = src ++ input := by
  have hadm := directive_admissible hclosing
  rw [directive_eq_eEnd.mpr hlast] at hr hadm
  subst hr
  exact L.closed input room hfed hadm hres hall

end

/-- An encoder that never stalls: while the promised length is respected a call
succeeds and moves a cursor or ends the frame, and a job has a bounded output. -/
structure LawfulEncoder.Flushes {F : Format α}
    {call : σ → List α → Nat → EndDirective → Reply σ α} (L : LawfulEncoder F π call)
    (bound : Job π α → Nat) : Prop where
  moves : ∀ {ctx job src out closing input room op},
    L.Fed ctx job src out closing → Admissible closing input op → 0 < room →
    (op = .eContinue → input ≠ [] ∧ src.length + input.length ≤ job.pledged) →
    (op = .eEnd → src.length + input.length = job.pledged) →
    ∃ k, (call ctx input room op).result = .ok k ∧
      ((op = .eEnd ∧ k = 0) ∨ 0 < (call ctx input room op).consumed ∨
        (call ctx input room op).produced ≠ [])
  bounded : ∀ {ctx job src out closing},
    L.Fed ctx job src out closing → out.length ≤ bound job

def LawfulEncoder.Compact {F : Format α} {call : σ → List α → Nat → EndDirective → Reply σ α}
    (L : LawfulEncoder F π call) (bound : Job π α → Nat) : Prop :=
  ∀ {ctx job src out closing} (input room), L.Fed ctx job src out closing →
    Admissible closing input .eEnd → (call ctx input room .eEnd).result = .ok 0 →
    src.length + input.length = job.pledged →
    out.length + (call ctx input room .eEnd).produced.length ≤ bound job

theorem LawfulEncoder.Compact.call_le {F : Format α}
    {call : σ → List α → Nat → EndDirective → Reply σ α} {L : LawfulEncoder F π call}
    {bound : Job π α → Nat} (h : L.Compact bound) (hflush : L.Flushes bound) {last : Prop}
    [Decidable last] {ctx : σ} {job : Job π α} {src out input : List α} {closing : Option (List α)}
    {room k : Nat} (hfed : L.Fed ctx job src out closing)
    (hclosing : closing = none ∨ (closing = some input ∧ last))
    (hall : last → src.length + input.length = job.pledged)
    (hres : (call ctx input room (directive last)).result = .ok k) :
    out.length + (call ctx input room (directive last)).produced.length ≤ bound job := by
  by_cases hend : last ∧ k = 0
  · obtain ⟨hlast, rfl⟩ := hend
    have hadm := directive_admissible hclosing
    rw [directive_eq_eEnd.mpr hlast] at hadm hres ⊢
    exact h input room hfed hadm hres (hall hlast)
  · have hfed' := LawfulEncoder.feeds hfed hclosing rfl hres fun hlast hk => hend ⟨hlast, hk⟩
    rw [← List.length_append]
    exact hflush.bounded hfed'

theorem LawfulEncoder.Flushes.call_moves {F : Format α}
    {call : σ → List α → Nat → EndDirective → Reply σ α} {L : LawfulEncoder F π call}
    {bound : Job π α → Nat} (h : L.Flushes bound) {last : Prop} [Decidable last] {ctx : σ}
    {job : Job π α} {src out input : List α} {closing : Option (List α)} {room : Nat}
    (hfed : L.Fed ctx job src out closing)
    (hclosing : closing = none ∨ (closing = some input ∧ last)) (hroom : 0 < room)
    (hmore : ¬ last → input ≠ [] ∧ src.length + input.length ≤ job.pledged)
    (hall : last → src.length + input.length = job.pledged) :
    ∃ k, (call ctx input room (directive last)).result = .ok k ∧
      ((last ∧ k = 0) ∨ 0 < (call ctx input room (directive last)).consumed ∨
        (call ctx input room (directive last)).produced ≠ []) := by
  have hmoves := h.moves hfed (directive_admissible hclosing) hroom
    (fun hop => hmore (directive_eq_eContinue.mp hop)) fun hop => hall (directive_eq_eEnd.mp hop)
  simpa only [directive_eq_eEnd] using hmoves

end Pyhdiff.Streaming
