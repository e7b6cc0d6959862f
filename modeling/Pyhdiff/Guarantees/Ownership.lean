import Pyhdiff.Guarantees.Stored
import Pyhdiff.Python.OwnedCalls
import Mathlib.Data.Fintype.EquivFin

/-! Ownership over whole sessions: whatever an interpreter calls and drops, nothing
is leaked, freed twice or used after it is freed. -/
namespace Pyhdiff.Guarantees
open Native Native.Owned Ownership Python Python.Owned

inductive Call where
  | hdiffEncode (base target : Bytes) (args : HDiffOptions)
  | zstdEncode (base target : Bytes) (args : ZstdOptions)
  | apply (zstd : Bool) (base object : Bytes) (offset targetSize : Int)
  | compress (data : Bytes) (level windowLog checksum : Int)
  | decompress (data : Bytes) (maxOutput : Int)

def Call.isDecoding : Call → Bool
  | .apply .. | .decompress .. => true
  | _ => false

def Call.plain (C : Host) (I : Interpreter) : Call → Py Bytes
  | .hdiffEncode base target args => Extension.hdiffEncode C I base target args
  | .zstdEncode base target args => Extension.zstdEncode C I base target args
  | .apply zstd base object offset targetSize => Extension.apply C I zstd base object offset targetSize
  | .compress data level windowLog checksum => Extension.compress C I data level windowLog checksum
  | .decompress data maxOutput => Extension.decompress C I data maxOutput

def Call.owned (C : Host) (P : Placement Block) (I : Interpreter) : Call → Method Unit (Except Exn Nat)
  | .hdiffEncode base target args => Owned.hdiffEncode C P I base target args
  | .zstdEncode base target args => Owned.zstdEncode C P I base target args
  | .apply zstd base object offset targetSize => Owned.apply C P I zstd base object offset targetSize
  | .compress data level windowLog checksum => Owned.compress C P I data level windowLog checksum
  | .decompress data maxOutput => Owned.decompress C P I data maxOutput

/-- The interpreter calls, and keeps what is returned, or drops one of the objects
it keeps. Each call meets libraries, allocators and answers of its own. -/
inductive Event where
  | call (C : Host) (P : Placement Block) (I : Interpreter) (c : Call)
  | drop (i : Nat)

/-- The objects that are kept, each with the interpreter it was made by, and the
exceptions of the calls in order. -/
def plainSession : List Event → List (Interpreter × Bytes) →
    Cxx (List (Interpreter × Bytes) × List (Option Exn))
  | [], kept => .ok (kept, [])
  | .call C _ I c :: es, kept => do
    match ← settle (c.plain C I) with
    | .ok b => do
      let (kept, log) ← plainSession es ((I, b) :: kept)
      return (kept, none :: log)
    | .error e => do
      let (kept, log) ← plainSession es kept
      return (kept, some e :: log)
  | .drop i :: es, kept => plainSession es (kept.eraseIdx i)

def session : List Event → List Nat → Method Unit (List Nat × List (Option Exn))
  | [], kept => return (kept, [])
  | .call C P I c :: es, kept => do
    match ← c.owned C P I with
    | .ok p => do
      let (kept, log) ← session es (p :: kept)
      return (kept, none :: log)
    | .error e => do
      let (kept, log) ← session es kept
      return (kept, some e :: log)
  | .drop i :: es, kept => do
    match kept[i]? with
    | none => session es kept
    | some p => do
      destroy p
      session es (kept.eraseIdx i)

/-- Of the arena `t` the kept objects are the part that is not `rest`: each lives at
an address of its own and reads as its bytes. -/
def Keeps (rest : Arena Block) : List Nat → List (Interpreter × Bytes) → Arena Block → Prop
  | [], [], t => t = rest
  | p :: ps, (I, b) :: bs, t => ∃ cells t', readCells I.stale cells = b ∧
      Holds (some p) (.object cells) t' t ∧ Keeps rest ps bs t'
  | _, _, _ => False

section
variable {C : Host} {P : Placement Block} {I : Interpreter} {rest t : Arena Block}
variable {U : Arena Block × Unit → Prop}

theorem Call.owned_refines (C : Host) (P : Placement Block) (I : Interpreter) (c : Call)
    (t : Arena Block) : Refines (Returns I t) U (c.owned C P I (t, ())) (settle (c.plain C I)) := by
  cases c with
  | hdiffEncode base target args => exact hdiffEncode_refines C P I base target args t
  | zstdEncode base target args => exact zstdEncode_refines C P I base target args t
  | apply zstd base object offset n => exact apply_refines C P I zstd base object offset n t
  | compress data level windowLog checksum =>
    exact compress_refines C P I data level windowLog checksum t
  | decompress data maxOutput => exact decompress_refines C P I data maxOutput t

theorem Keeps.length_eq {ps : List Nat} {bs : List (Interpreter × Bytes)} (h : Keeps rest ps bs t) :
    ps.length = bs.length := by
  induction ps generalizing bs t with
  | nil =>
    cases bs with
    | nil => rfl
    | cons b bs => exact h.elim
  | cons p ps ih =>
    cases bs with
    | nil => exact h.elim
    | cons b bs =>
      obtain ⟨cells, t', -, -, h⟩ := h
      exact congrArg (· + 1) (ih h)

theorem Keeps.drop {ps : List Nat} {bs : List (Interpreter × Bytes)} (h : Keeps rest ps bs t) {i p : Nat}
    (hp : ps[i]? = some p) :
    (∃ cells, t.lookup p = some (.object cells)) ∧
      Keeps rest (ps.eraseIdx i) (bs.eraseIdx i) (t.erase p) := by
  induction ps generalizing bs t i with
  | nil => cases hp
  | cons q ps ih =>
    cases bs with
    | nil => exact h.elim
    | cons b bs =>
      obtain ⟨cells, t', hb, hholds, h⟩ := h
      cases i with
      | zero =>
        obtain rfl : q = p := Option.some.inj hp
        refine ⟨⟨cells, hholds.lookup⟩, ?_⟩
        rw [hholds.erase]
        exact h
      | succ i =>
        obtain ⟨⟨cells', hlookup⟩, h⟩ := ih h hp
        have hne : q ≠ p := by
          intro hqp
          rw [← hqp, Finmap.lookup_eq_none.mpr hholds.1] at hlookup
          cases hlookup
        refine ⟨⟨cells', hholds.lookup_rest hlookup⟩, cells, t'.erase p, hb, ⟨?_, ?_⟩, h⟩
        · intro hq
          exact hholds.1 (Finmap.mem_erase.mp hq).2
        · rw [hholds.2, erase_insert_ne hne]

theorem session_refines (es : List Event) {ps : List Nat} {bs : List (Interpreter × Bytes)}
    (h : Keeps rest ps bs t) :
    Refines (fun a c u => a.2 = c.2 ∧ Keeps rest a.1 c.1 u.1) U (session es ps (t, ()))
      (plainSession es bs) := by
  induction es generalizing ps bs t with
  | nil => exact ⟨rfl, h⟩
  | cons e es ih =>
    cases e with
    | call C P I c =>
      refine (Call.owned_refines C P I c t).bind fun a r u hu => ?_
      cases a with
      | ok p =>
        cases r with
        | error e => exact hu.elim
        | ok b =>
          obtain ⟨cells, hb, hholds⟩ := hu
          have hkept : Keeps rest (p :: ps) ((I, b) :: bs) u.1 := ⟨cells, t, hb, hholds, h⟩
          refine (ih hkept).bind fun x y v hv => ?_
          exact ⟨congrArg (none :: ·) hv.1, hv.2⟩
      | error e =>
        cases r with
        | ok b => exact hu.elim
        | error e' =>
          obtain ⟨rfl, hu⟩ := hu
          obtain ⟨u, _⟩ := u
          obtain rfl : u = t := hu
          refine (ih h).bind fun x y v hv => ?_
          exact ⟨congrArg (some e :: ·) hv.1, hv.2⟩
    | drop i =>
      unfold session plainSession
      cases hp : ps[i]? with
      | none =>
        have hpast : bs.length ≤ i := by
          rw [← h.length_eq]
          exact List.getElem?_eq_none_iff.mp hp
        rw [List.eraseIdx_of_length_le hpast]
        exact ih h
      | some p =>
        obtain ⟨⟨cells, hlookup⟩, hkept⟩ := h.drop hp
        have hlookup : (t, ()).1.lookup p = some (.object cells) := hlookup
        change Refines _ _ ((destroy p >>= fun _ => _) (t, ())) _
        rw [bind_returns _ (destroy_lookup hlookup)]
        exact ih hkept

theorem settle_ends {α : Type} {Q : α → Prop} {R : Exn → Prop} {x : Py α} (h : Settles Q R x) :
    ∃ r, settle x = .ok r := by
  cases x with
  | ok a => exact ⟨_, rfl⟩
  | error e =>
    cases e with
    | raised e => exact ⟨_, rfl⟩
    | halt e => exact h.elim

theorem Call.decoding_ends {c : Call} (h : c.isDecoding = true) : ∃ r, settle (c.plain C I) = .ok r := by
  cases c with
  | apply zstd base object offset n =>
    exact settle_ends (Extension.apply_settles C I zstd base object offset n)
  | decompress data maxOutput =>
    have hsettles : Settles (fun _ => True) (fun _ => True)
        (Extension.decompress C I data maxOutput) := by
      unfold Extension.decompress
      refine ((parseSsize_settles maxOutput).mono (fun _ h => h) fun _ _ => trivial).bind fun m _ => ?_
      split
      · trivial
      · cases C.phdZstdDecompress_ends data m.toNat with
        | inl hfails =>
          obtain ⟨s, hs⟩ := hfails
          rw [hs]
          trivial
        | inr hends =>
          obtain ⟨cells, hcells, -⟩ := hends
          rw [hcells, Extension.finish]
          split <;> trivial
    exact settle_ends hsettles
  | hdiffEncode base target args => cases h
  | zstdEncode base target args => cases h
  | compress data level windowLog checksum => cases h

def OnlyDecodes (es : List Event) : Prop := ∀ C P I c, .call C P I c ∈ es → c.isDecoding = true

theorem plainSession_ends {es : List Event} (h : OnlyDecodes es) (bs : List (Interpreter × Bytes)) :
    ∃ r, plainSession es bs = .ok r := by
  induction es generalizing bs with
  | nil => exact ⟨_, rfl⟩
  | cons e es ih =>
    have hes : OnlyDecodes es := fun C P I c hc => h C P I c (List.mem_cons_of_mem e hc)
    cases e with
    | call C P I c =>
      obtain ⟨r, hr⟩ := Call.decoding_ends (C := C) (I := I) (h C P I c List.mem_cons_self)
      unfold plainSession
      rw [hr]
      cases r with
      | ok b =>
        obtain ⟨r, hr⟩ := ih hes ((I, b) :: bs)
        exact ⟨_, by rw [ok_bind]; simp only [hr, ok_bind]; rfl⟩
      | error e =>
        obtain ⟨r, hr⟩ := ih hes bs
        exact ⟨_, by rw [ok_bind]; simp only [hr, ok_bind]; rfl⟩
    | drop i => exact ih hes (bs.eraseIdx i)

end

/-- Nothing is leaked and nothing is used that is not there. A session of any calls
of the extension module, with any of the returned objects dropped at any time,
ends by address as it does by value: no access is wild, the exceptions are the
same, and what is allocated in the end is what was allocated before and the
objects that are kept, wherever blocks are put and whatever is refused in each
of the calls. A session that decodes always ends so; one that encodes may halt,
and by address just the same. -/
theorem session_owned (t : Arena Block) (es : List Event) :
    (∀ bs log, plainSession es [] = .ok (bs, log) →
      ∃ ps u, session es [] (t, ()) = .ok (ps, log) (u, ()) ∧ Keeps t ps bs u ∧
        (bs = [] → u = t)) ∧
    (∀ f, plainSession es [] = .error f → ∃ u, session es [] (t, ()) = .error (.fault f) u) ∧
    (OnlyDecodes es → ∃ r, plainSession es [] = .ok r) := by
  have hstart : Keeps t [] [] t := rfl
  have hrefines := session_refines (U := fun _ => True) es hstart
  refine ⟨fun bs log h => ?_, fun f h => ?_, fun h => plainSession_ends h []⟩
  · rw [h] at hrefines
    cases hrun : session es [] (t, ()) with
    | error e u =>
      rw [hrun] at hrefines
      cases e <;> exact hrefines.elim
    | ok a u =>
      rw [hrun] at hrefines
      obtain ⟨ps, log'⟩ := a
      obtain ⟨hlog, hkept⟩ := hrefines
      obtain rfl : log' = log := hlog
      refine ⟨ps, u.1, rfl, hkept, fun hnone => ?_⟩
      obtain rfl : bs = [] := hnone
      cases ps with
      | nil => exact hkept
      | cons p ps => exact hkept.elim
  · rw [h] at hrefines
    cases hrun : session es [] (t, ()) with
    | ok a u =>
      rw [hrun] at hrefines
      exact hrefines.elim
    | error e u =>
      rw [hrun] at hrefines
      cases e with
      | wild => exact hrefines.elim
      | fault e =>
        obtain ⟨rfl, -⟩ := hrefines
        exact ⟨u, rfl⟩

def firstFree : Placement Block where
  place a _ := Nat.find (Infinite.exists_notMem_finset a.keys)
  fresh a _ h := Nat.find_spec (Infinite.exists_notMem_finset a.keys) (Finmap.mem_keys.mpr h)

-- `abc` is decoded, then there is no memory for the object, and the first one is dropped
theorem session_owned_abc :
    let decode (I : Interpreter) : Event :=
      .call Stored.host firstFree I (.apply true [] Stored.abcFrame 0 3)
    session [decode Stored.interpreter, decode ⟨fun n => n = 0, rfl, fun _ => 0⟩, .drop 0] [] (∅, ()) =
      .ok ([], [none, some .memoryError]) (∅, ()) := by
  intro decode
  obtain ⟨ps, u, hrun, hkept, hnone⟩ := (session_owned ∅
    [decode Stored.interpreter, decode ⟨fun n => n = 0, rfl, fun _ => 0⟩, .drop 0]).1 []
    [none, some .memoryError] rfl
  obtain rfl : u = ∅ := hnone rfl
  rw [hrun]
  cases ps with
  | nil => rfl
  | cons p ps => exact hkept.elim

end Pyhdiff.Guarantees
