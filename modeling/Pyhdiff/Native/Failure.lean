import Pyhdiff.Streaming.Loop

/-! Limits, status codes and the ways a native call can end. -/
namespace Pyhdiff.Native

abbrev Bytes := List UInt8

def rawMax : Nat := 256 * 1024 * 1024
def payloadMax : Nat := 512 * 1024 * 1024 - 96
def stepMax : Nat := 256 * 1024
def hdiffWindowLogMax : Nat := 23
def zstdWindowLogMax : Nat := 30
def frameMax : Nat := 1024 * 1024 * 1024

/-- The failing values of `phd_status`. -/
inductive Status where
  | invalid | limit | alloc | exception | unknown | option | cancelled
  | zstdError (code : Nat)
  deriving DecidableEq

def zstdErrorBase : Nat := 1000

def Status.code : Status → Nat
  | .invalid => 1
  | .limit => 2
  | .alloc => 3
  | .exception => 4
  | .unknown => 5
  | .option => 6
  | .cancelled => 7
  | .zstdError e => zstdErrorBase + e

/-- A C++ exception, as the handlers of `boundary` tell them apart. -/
inductive Thrown where
  | failure (s : Status)
  | badAlloc | exception | unknown
  deriving DecidableEq

/-- Endings no handler sees: the hardening trap of a span out of range, and a
loop that is still running when the passes it was given are used up. -/
inductive Halt where
  | trap | running
  deriving DecidableEq

inductive Fault where
  | thrown (t : Thrown)
  | halt (h : Halt)
  deriving DecidableEq

abbrev Cxx (α : Type) := Except Fault α

def fail {α : Type} (s : Status) : Cxx α := .error (.thrown (.failure s))

def require (condition : Prop) [Decidable condition] (status : Status) : Cxx Unit :=
  if condition then .ok () else fail status

def memoryAllocation : Nat := 64

def zcheck {α : Type} : Except Nat α → Cxx α
  | .ok a => .ok a
  | .error e => fail (if e = memoryAllocation then .alloc else .zstdError e)

def subspan {α : Type} (b : List α) (pos n : Nat) : Cxx (List α) :=
  if pos ≤ b.length ∧ n ≤ b.length - pos then .ok ((b.drop pos).take n)
  else .error (.halt .trap)

def first (size n : Nat) : Cxx Unit := if n ≤ size then .ok () else .error (.halt .trap)

def boundary {α : Type} : Cxx α → Except Halt (Except Status α)
  | .ok a => .ok (.ok a)
  | .error (.thrown .badAlloc) => .ok (.error .alloc)
  | .error (.thrown (.failure s)) => .ok (.error s)
  | .error (.thrown .exception) => .ok (.error .exception)
  | .error (.thrown .unknown) => .ok (.error .unknown)
  | .error (.halt h) => .error h

section
variable {α β : Type}

@[simp] theorem require_bind (c : Prop) [Decidable c] (s : Status) (f : Unit → Cxx β) :
    (require c s >>= f) = if c then f () else fail s := by
  unfold require fail
  split <;> rfl

@[simp] theorem fail_bind (s : Status) (f : α → Cxx β) : (fail s >>= f) = fail s := rfl

@[simp] theorem ok_bind {ε : Type} (a : α) (f : α → Except ε β) :
    ((.ok a : Except ε α) >>= f) = f a := rfl

@[simp] theorem pure_ok {ε : Type} (a : α) : (pure a : Except ε α) = .ok a := rfl

@[simp] theorem error_bind {ε : Type} (e : ε) (f : α → Except ε β) :
    ((.error e : Except ε α) >>= f) = .error e := rfl

@[simp] theorem zcheck_ok (a : α) : zcheck (.ok a) = .ok a := rfl

theorem zcheck_error (e : Nat) :
    zcheck (.error e : Except Nat α) = fail (if e = memoryAllocation then .alloc else .zstdError e) :=
  rfl

theorem subspan_ok {b : List α} {pos n : Nat} (hp : pos ≤ b.length) (hn : n ≤ b.length - pos) :
    subspan b pos n = .ok ((b.drop pos).take n) := by simp [subspan, hp, hn]

theorem first_ok {size n : Nat} (h : n ≤ size) : first size n = .ok () := if_pos h

theorem bind_eq_ok {ε : Type} {x : Except ε α} {f : α → Except ε β} {b : β} :
    (x >>= f) = .ok b ↔ ∃ a, x = .ok a ∧ f a = .ok b := by
  cases x <;> simp

theorem require_eq_ok {c : Prop} [Decidable c] {s : Status} {u : Unit} :
    require c s = .ok u ↔ c := by
  unfold require fail
  split <;> simp_all

theorem zcheck_eq_ok {x : Except Nat α} {a : α} : zcheck x = .ok a ↔ x = .ok a := by
  cases x <;> simp [zcheck, fail]

theorem boundary_ok_iff {x : Cxx α} {a : α} : boundary x = .ok (.ok a) ↔ x = .ok a := by
  rcases x with (⟨_ | _ | _ | _⟩ | _) | _ <;> simp [boundary]

/-- The call ends by returning a value that satisfies `P`, or by an exception. -/
def Safe (P : α → Prop) : Cxx α → Prop
  | .ok a => P a
  | .error (.thrown _) => True
  | .error (.halt _) => False

theorem Safe.mono {P Q : α → Prop} {x : Cxx α} (h : Safe P x) (hPQ : ∀ a, P a → Q a) :
    Safe Q x := by
  cases x with
  | error e =>
    cases e with
    | thrown _ => trivial
    | halt _ => exact h
  | ok a => exact hPQ a h

theorem Safe.and_ok {P Q : α → Prop} {x : Cxx α} (h : Safe P x) (hQ : ∀ a, x = .ok a → Q a) :
    Safe (fun a => P a ∧ Q a) x := by
  cases x with
  | error e =>
    cases e with
    | thrown _ => trivial
    | halt _ => exact h
  | ok a => exact ⟨h, hQ a rfl⟩

theorem Safe.bind {P : α → Prop} {Q : β → Prop} {x : Cxx α} {f : α → Cxx β} (h : Safe P x)
    (hf : ∀ a, P a → Safe Q (f a)) : Safe Q (x >>= f) := by
  cases x with
  | error e =>
    cases e with
    | thrown _ => trivial
    | halt _ => exact h
  | ok a => exact hf a h

theorem Safe.ends {σ : Type} {P : α → Prop} {I : σ → Prop} {Q : β → Prop} {x : Cxx α}
    {f : α → Cxx (Streaming.Pass σ β)} (h : Safe P x)
    (hf : ∀ a, P a → Streaming.Pass.Ends I (Safe Q) (f a)) :
    Streaming.Pass.Ends I (Safe Q) (x >>= f) := by
  cases x with
  | error e =>
    cases e with
    | thrown _ => trivial
    | halt _ => exact h
  | ok a => exact hf a h

@[simp] theorem safe_fail (P : α → Prop) (s : Status) : Safe P (fail s) := trivial

theorem safe_require (c : Prop) [Decidable c] (s : Status) : Safe (fun _ => c) (require c s) := by
  unfold require
  split
  · assumption
  · exact safe_fail _ s

@[simp] theorem safe_zcheck (x : Except Nat α) : Safe (fun _ => True) (zcheck x) := by
  cases x <;> trivial

theorem Safe.boundary {P : α → Prop} {x : Cxx α} (h : Safe P x) :
    (∃ s, boundary x = .ok (.error s)) ∨ ∃ a, boundary x = .ok (.ok a) ∧ P a := by
  cases x with
  | error e =>
    cases e with
    | thrown t => cases t <;> exact .inl ⟨_, rfl⟩
    | halt _ => exact h.elim
  | ok a => exact .inr ⟨a, rfl, h⟩

end
end Pyhdiff.Native
