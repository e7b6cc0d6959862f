import Pyhdiff.Native.OwnedApply
import Pyhdiff.Python.Extension

/-! The extension module at the level of addresses: what a call allocates and frees,
and the bytes object it leaves to its caller. -/
namespace Pyhdiff.Python.Owned
open Native Native.Owned Ownership

/-- A result with its exceptions as values; a halt ends the process. -/
def settle {α : Type} : Py α → Cxx (Except Exn α)
  | .ok a => .ok (.ok a)
  | .error (.raised e) => .ok (.error e)
  | .error (.halt h) => .error (.halt h)

def parsed {α β : Type} (x : Py α) (f : α → Method Unit (Except Exn β)) :
    Method Unit (Except Exn β) :=
  match x with
  | .ok a => f a
  | .error (.raised e) => return .error e
  | .error (.halt h) => lift (.error (.halt h))

def parseHdiff (args : HDiffOptions) : Py HDiffOptions := do
  return {
    matchScore := ← parseInt args.matchScore
    level := ← parseInt args.level
    windowLog := ← parseInt args.windowLog
    fastBlockBytes := ← parseInt args.fastBlockBytes
    stepBytes := ← parseInt args.stepBytes
    contentSize := ← parseInt args.contentSize
    checksum := ← parseInt args.checksum }

def parseZstd (args : ZstdOptions) : Py ZstdOptions := do
  return {
    level := ← parseInt args.level
    windowLog := ← parseInt args.windowLog
    ldm := ← parseInt args.ldm
    contentSize := ← parseInt args.contentSize
    checksum := ← parseInt args.checksum
    ldmHashLog := ← parseInt args.ldmHashLog
    ldmMinMatch := ← parseInt args.ldmMinMatch
    ldmBucketLog := ← parseInt args.ldmBucketLog
    ldmRateLog := ← parseInt args.ldmRateLog }

section
variable (C : Host) (P : Placement Block) (I : Interpreter)

def newObject (cells : Cells) : Method Unit (Except Exn Nat) := do
  let object ← create P (.object cells)
  return .ok object

def bytesObject (data : Option Nat) (size : Nat) : Method Unit (Except Exn Nat) := fun s =>
  match data.bind s.1.lookup with
  | some (.bytes cells) =>
    if cells.length < size then wild s
    else if I.bytesObject size then newObject P (cells.take size) s
    else .ok (.error .memoryError) s
  | _ => wild s

def finish : Except Status (Option Nat × Nat) → Method Unit (Except Exn Nat)
  | .error status => return .error (.nativeError status.code)
  | .ok (data, size) => do
    let bytes ← bytesObject P I data size
    free data
    return bytes

def hdiffEncode (base target : Bytes) (args : HDiffOptions) : Method Unit (Except Exn Nat) :=
  parsed (parseHdiff args) fun o => do
    let result ← phdHdiffEncode C P base target o
    finish P I result

def zstdEncode (base target : Bytes) (args : ZstdOptions) : Method Unit (Except Exn Nat) :=
  parsed (parseZstd args) fun o => do
    let result ← phdZstdEncode C P base target o
    finish P I result

def fillObject (target : Nat) (cells : Cells) : Method Unit Unit :=
  access target fun block => match block with
    | .object _ => some (.object cells)
    | _ => none

/-- The target is decoded into a new object, whose bytes are put in place at the
end; nobody else can see it before. A failed decoding drops it. -/
def decode (zstd : Bool) (base payload : Bytes) (n : Nat) : Method Unit (Except Exn Nat) := do
  let target ← create P (.object (OutObject.fresh n).cells)
  match ← applyInto C P zstd base payload (.fresh n) with
  | .error status => do
    destroy target
    return .error (.nativeError status.code)
  | .ok out => do
    fillObject target out.cells
    return .ok target

def apply (zstd : Bool) (base object : Bytes) (offset targetSize : Int) :
    Method Unit (Except Exn Nat) :=
  parsed (do
    let offset ← parseSsize offset
    let targetSize ← parseSsize targetSize
    let payload ← tailView object offset
    return (payload, targetSize)) fun x =>
    if x.2 < 0 ∨ x.2.toNat > rawMax then return .error (.nativeError Status.limit.code)
    else if ¬ I.bytesObject x.2.toNat then return .error .memoryError
    else decode C P zstd base x.1 x.2.toNat

def compress (data : Bytes) (level windowLog checksum : Int) : Method Unit (Except Exn Nat) :=
  parsed (do
    let level ← parseInt level
    let windowLog ← parseInt windowLog
    let checksum ← parseInt checksum
    return (level, windowLog, checksum)) fun x => do
    let result ← phdZstdCompress C P data x.1 x.2.1 x.2.2
    finish P I result

def decompress (data : Bytes) (maxOutput : Int) : Method Unit (Except Exn Nat) :=
  parsed (parseSsize maxOutput) fun maxOutput => do
    if maxOutput < 0 then return .error (.valueError "negative output bound")
    else
      let result ← phdZstdDecompress C P data maxOutput.toNat
      finish P I result

end

/-- The call leaves one more block than there was: an object that reads as the
bytes returned. With an exception it leaves what there was. -/
def Returns (I : Interpreter) (t : Arena Block) (a : Except Exn Nat) (c : Except Exn Bytes)
    (u : Arena Block × Unit) : Prop :=
  match a, c with
  | .ok p, .ok b => ∃ cells, readCells I.stale cells = b ∧ Holds (some p) (.object cells) t u.1
  | .error e, .error e' => e = e' ∧ u.1 = t
  | _, _ => False

section
variable {C : Host} {P : Placement Block} {I : Interpreter} {t : Arena Block}
variable {U : Arena Block × Unit → Prop}

theorem parsed_refines {α : Type} {x : Py α} {f : α → Method Unit (Except Exn Nat)} {g : α → Py Bytes}
    (h : ∀ a, x = .ok a → Refines (Returns I t) U (f a (t, ())) (settle (g a))) :
    Refines (Returns I t) U (parsed x f (t, ())) (settle (x >>= g)) := by
  cases x with
  | ok a => exact h a rfl
  | error e =>
    cases e with
    | raised e => exact ⟨rfl, rfl⟩
    | halt e => exact ⟨rfl, fun htrap => absurd htrap Bool.false_ne_true⟩

theorem newObject_returns (cells : Cells) (u : Arena Block × Unit) :
    ∃ p t', newObject P cells u = .ok (.ok p) (t', ()) ∧ Holds (some p) (.object cells) u.1 t' :=
  ⟨_, _, rfl, P.fresh _ _, rfl⟩

theorem finish_given {d : Option Nat × Nat} {cells : Cells} {u : Arena Block × Unit}
    (h : Given t d cells u.1) :
    Refines (Returns I t) U (finish P I (.ok d) u) (settle (Extension.finish I (.ok (.ok cells)))) := by
  obtain ⟨p, block, rfl, htake, hholds⟩ := h
  have hfits : ¬ block.length < cells.length := by
    have hlength := congrArg List.length htake
    rw [List.length_take] at hlength
    omega
  have hlookup : (some p).bind u.1.lookup = some (.bytes block) := hholds.lookup
  unfold finish
  by_cases hroom : I.bytesObject cells.length = true
  · obtain ⟨q, t', hobject, hq⟩ := newObject_returns (P := P) cells u
    have hbytes : bytesObject P I (some p) cells.length u = .ok (.ok q) (t', ()) := by
      simp only [bytesObject, hlookup, if_neg hfits, hroom, if_true, htake, hobject]
    have hholds' : Holds (some p) (.bytes block) (t.insert q (.object cells)) t' := by
      rw [hq.2]
      exact hholds.create hq.1
    change Refines _ _ ((bytesObject P I (some p) cells.length >>= fun _ => _) u) _
    rw [bind_returns _ hbytes]
    change Refines _ _ ((free (some p) >>= fun _ => _) (t', ())) _
    rw [bind_returns _ (free_holds hholds')]
    simp only [Extension.finish, hroom, if_true]
    exact ⟨cells, rfl, hholds.fresh hq.1, rfl⟩
  · have hbytes : bytesObject P I (some p) cells.length u = .ok (.error .memoryError) u := by
      simp only [bytesObject, hlookup, if_neg hfits, hroom, Bool.false_eq_true, if_false]
    change Refines _ _ ((bytesObject P I (some p) cells.length >>= fun _ => _) u) _
    rw [bind_returns _ hbytes]
    change Refines _ _ ((free (some p) >>= fun _ => _) u) _
    rw [bind_returns _ (free_holds hholds)]
    simp only [Extension.finish, hroom, Bool.false_eq_true, if_false]
    exact ⟨rfl, rfl⟩

theorem finish_refines {m : Method Unit (Except Status (Option Nat × Nat))}
    {x : Except Halt (Except Status Cells)}
    (h : Refines (Hands t) U (m (t, ())) (x.mapError .halt)) :
    Refines (Returns I t) U ((m >>= finish P I) (t, ())) (settle (Extension.finish I x)) := by
  have hsettle : settle (Extension.finish I x) =
      (x.mapError Fault.halt >>= fun r => settle (Extension.finish I (.ok r))) := by
    cases x <;> rfl
  rw [hsettle]
  refine h.bind fun a r u hu => ?_
  cases a with
  | error s =>
    cases r with
    | error s' =>
      obtain ⟨rfl, hu⟩ := hu
      exact ⟨rfl, hu⟩
    | ok cells => exact hu.elim
  | ok d =>
    cases r with
    | error s' => exact hu.elim
    | ok cells => exact finish_given hu

theorem hdiffEncode_refines (C : Host) (P : Placement Block) (I : Interpreter) (base target : Bytes)
    (args : HDiffOptions) (t : Arena Block) :
    Refines (Returns I t) U (hdiffEncode C P I base target args (t, ()))
      (settle (Extension.hdiffEncode C I base target args)) := by
  have hparses : Extension.hdiffEncode C I base target args =
      (parseHdiff args >>= fun o => Extension.finish I (C.phdHdiffEncode base target o)) := by
    simp only [Extension.hdiffEncode, parseHdiff, bind_assoc, pure_bind]
  rw [hparses]
  exact parsed_refines fun o _ => finish_refines (phdHdiffEncode_refines C P base target o t)

theorem zstdEncode_refines (C : Host) (P : Placement Block) (I : Interpreter) (base target : Bytes)
    (args : ZstdOptions) (t : Arena Block) :
    Refines (Returns I t) U (zstdEncode C P I base target args (t, ()))
      (settle (Extension.zstdEncode C I base target args)) := by
  have hparses : Extension.zstdEncode C I base target args =
      (parseZstd args >>= fun o => Extension.finish I (C.phdZstdEncode base target o)) := by
    simp only [Extension.zstdEncode, parseZstd, bind_assoc, pure_bind]
  rw [hparses]
  exact parsed_refines fun o _ => finish_refines (phdZstdEncode_refines C P base target o t)

theorem compress_refines (C : Host) (P : Placement Block) (I : Interpreter) (data : Bytes)
    (level windowLog checksum : Int) (t : Arena Block) :
    Refines (Returns I t) U (compress C P I data level windowLog checksum (t, ()))
      (settle (Extension.compress C I data level windowLog checksum)) := by
  have hparses : Extension.compress C I data level windowLog checksum = ((do
        let level ← parseInt level
        let windowLog ← parseInt windowLog
        let checksum ← parseInt checksum
        return (level, windowLog, checksum)) >>= fun x =>
      Extension.finish I (C.phdZstdCompress data x.1 x.2.1 x.2.2)) := by
    simp only [Extension.compress, bind_assoc, pure_bind]
  rw [hparses]
  exact parsed_refines fun x _ => finish_refines (phdZstdCompress_refines C P data _ _ _ t)

theorem decompress_refines (C : Host) (P : Placement Block) (I : Interpreter) (data : Bytes)
    (maxOutput : Int) (t : Arena Block) :
    Refines (Returns I t) U (decompress C P I data maxOutput (t, ()))
      (settle (Extension.decompress C I data maxOutput)) := by
  unfold decompress Extension.decompress
  refine parsed_refines fun maxOutput _ => ?_
  by_cases hnegative : maxOutput < 0
  · simp only [if_pos hnegative]
    exact ⟨rfl, rfl⟩
  · simp only [if_neg hnegative]
    exact finish_refines (phdZstdDecompress_refines C P data _ t)

theorem decode_refines (C : Host) (P : Placement Block) (I : Interpreter) (zstd : Bool)
    (base payload : Bytes) (n : Nat) (t : Arena Block) :
    Refines (Returns I t) U (decode C P zstd base payload n (t, ()))
      (settle (match C.applyInto zstd base payload (.fresh n) with
        | .error h => .error (.halt h)
        | .ok (.error status) => raiseStatus status
        | .ok (.ok target) => return readCells I.stale target.cells)) := by
  have hfresh := P.fresh t (.object (OutObject.fresh n).cells)
  have hcreated : ∀ f : Nat → Method Unit (Except Exn Nat),
      (create P (.object (OutObject.fresh n).cells) >>= f) (t, ()) =
        f (P.place t (.object (OutObject.fresh n).cells))
          (t.insert (P.place t (.object (OutObject.fresh n).cells)) (.object (OutObject.fresh n).cells),
            ()) := fun _ => rfl
  unfold decode
  rw [hcreated]
  generalize P.place t (.object (OutObject.fresh n).cells) = target at hfresh
  have hheld : Holds (some target) (.object (OutObject.fresh n).cells) t
      (t.insert target (.object (OutObject.fresh n).cells)) := ⟨hfresh, rfl⟩
  generalize t.insert target (.object (OutObject.fresh n).cells) = t' at hheld
  have hsettle : settle (match C.applyInto zstd base payload (.fresh n) with
        | .error h => .error (.halt h)
        | .ok (.error status) => raiseStatus status
        | .ok (.ok target) => return readCells I.stale target.cells) =
      ((C.applyInto zstd base payload (.fresh n)).mapError Fault.halt >>= fun r => match r with
        | .error status => .ok (.error (.nativeError status.code))
        | .ok out => .ok (.ok (readCells I.stale out.cells))) := by
    cases C.applyInto zstd base payload (.fresh n) with
    | error h => rfl
    | ok r => cases r <;> rfl
  rw [hsettle]
  refine (applyInto_refines C P zstd base payload (.fresh n) t').bind fun a r u hu => ?_
  cases a with
  | error status =>
    cases r with
    | ok out => exact hu.elim
    | error status' =>
      obtain ⟨rfl, hu⟩ := hu
      have hlookup : u.1.lookup target = some (.object (OutObject.fresh n).cells) := by
        rw [hu, hheld.lookup]
      change Refines _ _ ((destroy target >>= fun _ => _) u) _
      rw [bind_returns _ (destroy_lookup hlookup)]
      refine ⟨rfl, ?_⟩
      rw [hu, hheld.erase]
  | ok out =>
    cases r with
    | error status => exact hu.elim
    | ok out' =>
      obtain ⟨rfl, hu⟩ := hu
      have hfill : fillObject target out.cells u = .ok () (t'.insert target (.object out.cells), u.2) := by
        simp only [fillObject, access, hu, hheld.lookup, Option.bind_eq_bind, Option.bind_some]
      change Refines _ _ ((fillObject target out.cells >>= fun _ => _) u) _
      rw [bind_returns _ hfill]
      exact ⟨out.cells, rfl, hheld.replace _⟩

theorem apply_refines (C : Host) (P : Placement Block) (I : Interpreter) (zstd : Bool)
    (base object : Bytes) (offset targetSize : Int) (t : Arena Block) :
    Refines (Returns I t) U (apply C P I zstd base object offset targetSize (t, ()))
      (settle (Extension.apply C I zstd base object offset targetSize)) := by
  have hparses : Extension.apply C I zstd base object offset targetSize = ((do
        let offset ← parseSsize offset
        let targetSize ← parseSsize targetSize
        let payload ← tailView object offset
        return (payload, targetSize)) >>= fun x =>
      if x.2 < 0 ∨ x.2.toNat > rawMax then raiseStatus .limit
      else if ¬ I.bytesObject x.2.toNat then raise .memoryError
      else match C.applyInto zstd base x.1 (.fresh x.2.toNat) with
        | .error h => .error (.halt h)
        | .ok (.error status) => raiseStatus status
        | .ok (.ok target) => return readCells I.stale target.cells) := by
    unfold Extension.apply
    simp only [bind_assoc]
    refine bind_congr fun _ => bind_congr fun _ => bind_congr fun _ => ?_
    rfl
  rw [hparses]
  unfold apply
  refine parsed_refines fun x _ => ?_
  by_cases hlimit : x.2 < 0 ∨ x.2.toNat > rawMax
  · simp only [if_pos hlimit]
    exact ⟨rfl, rfl⟩
  simp only [if_neg hlimit]
  by_cases hroom : I.bytesObject x.2.toNat = true
  · simp only [hroom, not_true_eq_false, if_false]
    exact decode_refines C P I zstd base x.1 x.2.toNat t
  · simp only [hroom, Bool.false_eq_true, not_false_eq_true, if_true]
    exact ⟨rfl, rfl⟩

end

end Pyhdiff.Python.Owned
