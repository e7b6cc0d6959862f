import Pyhdiff.Streaming.Encoder
import Pyhdiff.Streaming.Loop

/-! Clients that feed a source to an encoder, whatever the encoder does. -/
namespace Pyhdiff.Streaming
variable {α σ ε β : Type*}

/-- A call offers the `m` symbols that come next, at least one of them unless it
offers the last, and from then on always the rest. -/
structure Offers (src : List α) (fed : Nat) (closing : Option (List α)) (m : Nat) : Prop where
  inside : fed + m ≤ src.length
  more : fed + m ≠ src.length → 0 < m
  admissible : Admissible closing ((src.drop fed).take m) (directive (fed + m = src.length))

abbrev offered (call : σ → List α → Nat → EndDirective → Reply σ α) (src : List α) (room : Nat)
    (ctx : σ) (fed m : Nat) : Reply σ α :=
  call ctx ((src.drop fed).take m) room (directive (fed + m = src.length))

/-- A client that has made `n` calls and is to make another: it has fed `fed`
symbols of the source, no call was answered as the last of the stream, and all
that came out is `out`. -/
inductive Feeds (call : σ → List α → Nat → EndDirective → Reply σ α) (src : List α) (room : Nat)
    (ctx₀ : σ) : Nat → σ → Nat → List α → Option (List α) → Prop
  | start : Feeds call src room ctx₀ 0 ctx₀ 0 [] none
  | call {n : Nat} {ctx : σ} {fed : Nat} {out : List α} {closing : Option (List α)} {m k : Nat} :
    Feeds call src room ctx₀ n ctx fed out closing → Offers src fed closing m →
    (offered call src room ctx fed m).result = .ok k → ¬ (fed + m = src.length ∧ k = 0) →
    Feeds call src room ctx₀ (n+1) (offered call src room ctx fed m).ctx
      (fed + (offered call src room ctx fed m).consumed)
      (out ++ (offered call src room ctx fed m).produced)
      (if fed + m = src.length then
        some (((src.drop fed).take m).drop (offered call src room ctx fed m).consumed) else none)

def Encodes (call : σ → List α → Nat → EndDirective → Reply σ α) (src : List α) (room : Nat)
    (ctx₀ : σ) (w : List α) : Prop :=
  ∃ n ctx fed out closing m, Feeds call src room ctx₀ n ctx fed out closing ∧
    Offers src fed closing m ∧ fed + m = src.length ∧
    (offered call src room ctx fed m).result = .ok 0 ∧
    w = out ++ (offered call src room ctx fed m).produced

/-- An encoder that never stalls: a call that is offered something moves a cursor
or ends the stream. -/
def Progresses (call : σ → List α → Nat → EndDirective → Reply σ α) : Prop :=
  ∀ ctx input room op k, 0 < room → (op = .eContinue → input ≠ []) →
    (call ctx input room op).result = .ok k →
    (op = .eEnd ∧ k = 0) ∨ 0 < (call ctx input room op).consumed ∨
      (call ctx input room op).produced ≠ []

section
variable {call : σ → List α → Nat → EndDirective → Reply σ α} {src : List α} {room : Nat}
variable {ctx₀ ctx : σ} {n fed m : Nat} {out : List α} {closing : Option (List α)}

theorem Offers.length (h : Offers src fed closing m) : ((src.drop fed).take m).length = m := by
  have := h.inside
  rw [List.length_take, List.length_drop]
  omega

theorem Offers.consumed_le (h : Offers src fed closing m)
    (hwithin : ∀ ctx input room op, (call ctx input room op).Within input room) :
    fed + (offered call src room ctx fed m).consumed ≤ src.length := by
  have hconsumed : (offered call src room ctx fed m).consumed ≤ ((src.drop fed).take m).length :=
    (hwithin _ _ _ _).1
  have := h.inside
  rw [h.length] at hconsumed
  omega

theorem Feeds.fed_le (hwithin : ∀ ctx input room op, (call ctx input room op).Within input room)
    (h : Feeds call src room ctx₀ n ctx fed out closing) : fed ≤ src.length := by
  cases h with
  | start => exact Nat.zero_le _
  | call _ hoffers _ _ => exact hoffers.consumed_le hwithin

/-- Every call but the last feeds a symbol or gives one out. -/
theorem Feeds.calls_le (hprogress : Progresses call) (hroom : 0 < room)
    (h : Feeds call src room ctx₀ n ctx fed out closing) : n ≤ fed + out.length := by
  induction h with
  | start => exact Nat.zero_le _
  | @call n ctx fed out closing m k _ hoffers hres hgoing ih =>
    have hinput : directive (fed + m = src.length) = .eContinue → (src.drop fed).take m ≠ [] := by
      intro hop
      have hpos := hoffers.more (directive_eq_eContinue.mp hop)
      exact List.ne_nil_of_length_pos (by rwa [hoffers.length])
    have hmoves : 0 < (offered call src room ctx fed m).consumed ∨
        (offered call src room ctx fed m).produced ≠ [] :=
      (hprogress _ _ _ _ _ hroom hinput hres).resolve_left fun hend =>
        hgoing ⟨directive_eq_eEnd.mp hend.1, hend.2⟩
    rw [List.length_append]
    cases hmoves with
    | inl hconsumed => omega
    | inr hproduced =>
      have := List.length_pos_iff.mpr hproduced
      omega

end

theorem run_counted {body : σ → Except ε (Pass σ β)} {spent : ε} {I : Nat → σ → Prop}
    {P : Except ε β → Prop} (hpass : ∀ k s, I k s → Pass.Ends (I (k+1)) P (body s)) {n k : Nat} {s : σ}
    (hs : I k s) (hspent : ∀ t, I (k + n) t → P (.error spent)) : P (run body spent n s) := by
  induction n generalizing k s with
  | zero => exact hspent s hs
  | succ n ih =>
    have h := hpass k s hs
    unfold run
    cases hb : body s with
    | error e => simpa [hb, Pass.Ends] using h
    | ok p =>
      cases p with
      | next t =>
        have ht : I (k+1) t := by simpa [hb, Pass.Ends] using h
        exact ih ht fun u hu => hspent u (by rwa [Nat.add_right_comm] at hu)
      | stop a => simpa [hb, Pass.Ends] using h

end Pyhdiff.Streaming
