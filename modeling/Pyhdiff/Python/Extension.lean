import Pyhdiff.Native.Bridge

/-! The C extension module between the package and the bridge. -/
namespace Pyhdiff.Python
open Native

/-- The exceptions that show, by class and message. `nativeError` is the
extension's own `_native.Error`, whose argument is a status code. -/
inductive Exn where
  | nativeError (code : Nat)
  | memoryError
  | overflowError
  | valueError (message : String)
  | envelopeError (message : String)
  | baseMismatchError (message : String)
  | decodeError (message : String)
  | integrityError (message : String)
  | limitError (message : String)
  | optionError (message : String)
  | nativeFailure (message : String)
  | allocationError (message : String)
  deriving DecidableEq

def Exn.isError : Exn → Bool
  | .nativeError _ | .memoryError | .overflowError | .valueError _ => false
  | _ => true

inductive Exit where
  | raised (e : Exn)
  | halt (h : Halt)
  deriving DecidableEq

abbrev Py (α : Type) := Except Exit α

def raise {α : Type} (e : Exn) : Py α := .error (.raised e)

/-- The call returns a value that satisfies `P`, or raises an exception that
satisfies `Q`. -/
def Settles {α : Type} (P : α → Prop) (Q : Exn → Prop) : Py α → Prop
  | .ok a => P a
  | .error (.raised e) => Q e
  | .error (.halt _) => False

theorem Settles.bind {α β : Type} {P : α → Prop} {P' : β → Prop} {Q : Exn → Prop} {x : Py α}
    {f : α → Py β} (h : Settles P Q x) (hf : ∀ a, P a → Settles P' Q (f a)) :
    Settles P' Q (x >>= f) := by
  cases x with
  | error x =>
    cases x with
    | raised _ => exact h
    | halt _ => exact h
  | ok a => exact hf a h

theorem Settles.mono {α : Type} {P P' : α → Prop} {Q Q' : Exn → Prop} {x : Py α}
    (h : Settles P Q x) (hP : ∀ a, P a → P' a) (hQ : ∀ e, Q e → Q' e) : Settles P' Q' x := by
  cases x with
  | error x =>
    cases x with
    | raised e => exact hQ e h
    | halt _ => exact h
  | ok a => exact hP a h

/-- What the interpreter does for a call: which bytes objects it can create,
and what an object not yet filled holds. The empty object always exists. -/
structure Interpreter where
  bytesObject : Nat → Bool
  bytesObject_zero : bytesObject 0 = true
  stale : Nat → UInt8

/-- The formats `i` and `n` of `PyArg_ParseTuple`. -/
def parseInt (v : Int) : Py Int := if -2 ^ 31 ≤ v ∧ v < 2 ^ 31 then .ok v else raise .overflowError

def parseSsize (v : Int) : Py Int := if -2 ^ 63 ≤ v ∧ v < 2 ^ 63 then .ok v else raise .overflowError

theorem parseSsize_ok {v : Int} (h : -2 ^ 63 ≤ v ∧ v < 2 ^ 63) : parseSsize v = .ok v := if_pos h

theorem parseSsize_settles (v : Int) :
    Settles (· = v) (fun e => e.isError = false) (parseSsize v) := by
  unfold parseSsize
  split
  · rfl
  · rfl

def tailView (object : Bytes) (offset : Int) : Py Bytes :=
  if offset < 0 ∨ offset.toNat > object.length then
    raise (.valueError "offset outside the buffer")
  else .ok (object.drop offset.toNat)

theorem tailView_settles (object : Bytes) (offset : Int) :
    Settles (fun _ => True) (fun e => e.isError = false) (tailView object offset) := by
  unfold tailView
  split
  · rfl
  · trivial

def raiseStatus {α : Type} (status : Status) : Py α := raise (.nativeError status.code)

namespace Extension
variable (C : Host) (I : Interpreter)

def finish : Except Halt (Except Status Cells) → Py Bytes
  | .error h => .error (.halt h)
  | .ok (.error status) => raiseStatus status
  | .ok (.ok data) =>
    if I.bytesObject data.length then .ok (readCells I.stale data) else raise .memoryError

def hdiffEncode (base target : Bytes) (args : HDiffOptions) : Py Bytes := do
  let o : HDiffOptions := {
    matchScore := ← parseInt args.matchScore
    level := ← parseInt args.level
    windowLog := ← parseInt args.windowLog
    fastBlockBytes := ← parseInt args.fastBlockBytes
    stepBytes := ← parseInt args.stepBytes
    contentSize := ← parseInt args.contentSize
    checksum := ← parseInt args.checksum }
  finish I (C.phdHdiffEncode base target o)

def zstdEncode (base target : Bytes) (args : ZstdOptions) : Py Bytes := do
  let o : ZstdOptions := {
    level := ← parseInt args.level
    windowLog := ← parseInt args.windowLog
    ldm := ← parseInt args.ldm
    contentSize := ← parseInt args.contentSize
    checksum := ← parseInt args.checksum
    ldmHashLog := ← parseInt args.ldmHashLog
    ldmMinMatch := ← parseInt args.ldmMinMatch
    ldmBucketLog := ← parseInt args.ldmBucketLog
    ldmRateLog := ← parseInt args.ldmRateLog }
  finish I (C.phdZstdEncode base target o)

/-- The target size is known, so decode straight into a new bytes object. -/
def apply (zstd : Bool) (base object : Bytes) (offset targetSize : Int) : Py Bytes := do
  let offset ← parseSsize offset
  let targetSize ← parseSsize targetSize
  let payload ← tailView object offset
  if targetSize < 0 ∨ targetSize.toNat > rawMax then raiseStatus .limit
  else if ¬ I.bytesObject targetSize.toNat then raise .memoryError
  else match C.applyInto zstd base payload (.fresh targetSize.toNat) with
    | .error h => .error (.halt h)
    | .ok (.error status) => raiseStatus status
    | .ok (.ok target) => return readCells I.stale target.cells

def hdiffApply : Bytes → Bytes → Int → Int → Py Bytes := apply C I false

def zstdApply : Bytes → Bytes → Int → Int → Py Bytes := apply C I true

def compress (data : Bytes) (level windowLog checksum : Int) : Py Bytes := do
  let level ← parseInt level
  let windowLog ← parseInt windowLog
  let checksum ← parseInt checksum
  finish I (C.phdZstdCompress data level windowLog checksum)

def decompress (data : Bytes) (maxOutput : Int) : Py Bytes := do
  let maxOutput ← parseSsize maxOutput
  if maxOutput < 0 then raise (.valueError "negative output bound")
  else finish I (C.phdZstdDecompress data maxOutput.toNat)

theorem finish_eq_ok {I : Interpreter} {x : Except Halt (Except Status Cells)} {b : Bytes} :
    finish I x = .ok b ↔
      ∃ cells, x = .ok (.ok cells) ∧ I.bytesObject cells.length = true ∧ b = readCells I.stale cells := by
  cases x with
  | error h => simp [finish]
  | ok r =>
    cases r with
    | error s => simp [finish, raiseStatus, raise]
    | ok cells =>
      by_cases hgranted : I.bytesObject cells.length = true
      · simp only [finish, hgranted, if_true, Except.ok.injEq, exists_eq_left', true_and]
        exact eq_comm
      · simp [finish, hgranted, raise]

theorem apply_eq {C : Host} {I : Interpreter} {zstd : Bool} {base object : Bytes} {offset n : Nat}
    (hoffset : offset ≤ object.length) (hsmall : offset < 2 ^ 63) (hn : n ≤ rawMax) :
    apply C I zstd base object offset n =
      if ¬ I.bytesObject n then raise .memoryError
      else match C.applyInto zstd base (object.drop offset) (.fresh n) with
        | .error h => .error (.halt h)
        | .ok (.error status) => raiseStatus status
        | .ok (.ok target) => return readCells I.stale target.cells := by
  have hraw : rawMax < 2 ^ 63 := by decide
  unfold apply tailView
  rw [parseSsize_ok ⟨by omega, by omega⟩, parseSsize_ok ⟨by omega, by omega⟩]
  simp only [ok_bind, Int.toNat_natCast]
  rw [if_neg (by omega), ok_bind, if_neg (by omega)]

theorem apply_raises (C : Host) (I : Interpreter) (zstd : Bool) (base object : Bytes)
    (offset n : Int) : Settles (fun t => (t.length : Int) = n) (fun e => e.isError = false)
      (apply C I zstd base object offset n) := by
  unfold apply
  refine (parseSsize_settles offset).bind fun offset _ => (parseSsize_settles n).bind fun n hn => ?_
  refine (tailView_settles object offset).bind fun payload _ => ?_
  split
  · rfl
  split
  · rfl
  cases C.applyInto_ends zstd base payload n.toNat with
  | inl hfails =>
    obtain ⟨s, h⟩ := hfails
    rw [h]
    rfl
  | inr hends =>
    obtain ⟨d, h, hlen⟩ := hends
    rw [h]
    change ((readCells I.stale d.cells).length : Int) = _
    rw [readCells_length, hlen]
    omega

theorem apply_settles (C : Host) (I : Interpreter) (zstd : Bool) (base object : Bytes)
    (offset n : Int) : Settles (fun t => (t.length : Int) = n) (fun _ => True)
      (apply C I zstd base object offset n) :=
  (apply_raises C I zstd base object offset n).mono (fun _ h => h) fun _ _ => trivial

end Extension
end Pyhdiff.Python
