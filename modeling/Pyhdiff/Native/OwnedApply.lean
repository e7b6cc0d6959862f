import Pyhdiff.Native.Apply
import Pyhdiff.Native.Bridge
import Pyhdiff.Native.Owned

/-! Decoding into a caller's buffer and the entry points of the bridge, at the level
of addresses. -/
namespace Pyhdiff.Native.Owned
open Ownership Streaming

section
variable (Z : Zstd) (heap : Heap) (P : Placement Block)

def applyPass (d : Nat) (src : Bytes) (tn : Nat) (s : ApplyState Z) :
    Method Unit (Pass (ApplyState Z) (ApplyState Z)) := do
  touch d Block.isDCtx
  lift (Native.applyPass Z 65536 65536 src tn s)

def zstdApply (base src : Bytes) (dst : OutObject) : Method Unit OutObject := do
  let tn := dst.cells.length
  lift (require (base.length ≤ rawMax ∧ tn ≤ rawMax ∧ src.length ≤ payloadMax) .limit)
  let _ ← lift (zcheck (Z.getFrameHeader src))
  let (needed, header) ← lift (zcheck (Z.getFrameHeader src))
  lift (require (needed = 0 ∧ header.skippable = false) .invalid)
  lift (require (header.windowSize ≤ 2 ^ zstdWindowLogMax) .limit)
  lift (require (header.frameContentSize = contentSizeUnknown ∨ header.frameContentSize = tn) .invalid)
  let some ctx := Z.createDCtx | lift (.error (.thrown .badAlloc))
  holding P .dctx fun d => do
    touch d Block.isDCtx
    let ctx ← lift (zcheck (Z.dctxSetWindowLogMax ctx zstdWindowLogMax))
    let ctx ← lift (zcheck (Z.dctxRefPrefix ctx base))
    let s ← loop (applyPass Z d src tn) (.halt .running) (src.length + tn + 1) ⟨ctx, 0, 0, dst⟩
    lift (require (s.read = src.length ∧ s.written = tn) .invalid)
    return s.dst

/-- The pointer to the context that the state of the plugin owns. -/
abbrev Decoder := Option Nat

namespace Decoder

/-- The new pointer is stored before the old context is destroyed. -/
def reset (p : Option Nat) : Method Decoder Unit := do
  let old ← object
  setObject p
  match old with
  | none => return ()
  | some q => destroy q

def destructor : Method Decoder Unit := reset none

def touch : Method Decoder Unit := do
  match ← object with
  | none => wild
  | some d => Ownership.touch d Block.isDCtx

def opens (size : Nat) (s : StreamInput) (b e : Nat) : Method Decoder (Decompress Z) := do
  lift (require (b ≤ e ∧ e ≤ s.size ∧ size ≤ payloadMax) .invalid)
  match Z.createDCtx with
  | none => do
    reset none
    lift (.error (.thrown .badAlloc))
  | some ctx => do
    let d ← create P .dctx
    reset (some d)
    let ctx ← lift (zcheck (Z.dctxSetWindowLogMax ctx hdiffWindowLogMax))
    return ⟨ctx, s, b, e, size, [], 0, false⟩

end Decoder

/-- The patching client. Each call of an open handle works on the context the
plugin owns; the streams it reads allocate nothing. -/
def patching (H : HDiffPatch) (old delta : StreamInput) : {h : Handle} → Session h → HandleState Z h → OutObject →
    Method Decoder (Bool × OutObject)
  | _, .finish verdict, _, dst => return (verdict, dst)
  | _, .throws t, _, _ => lift (.error (.thrown t))
  | _, .readOld pos n k, st, dst => do
    let r ← lift (old.call pos n)
    patching H old delta (k r) st dst
  | _, .readDelta pos n k, st, dst => do
    let r ← lift (delta.call pos n)
    patching H old delta (k r) st dst
  | _, .write pos b k, st, dst =>
    match H.memAsHStreamOutput dst pos b with
    | none => patching H old delta (k false) st dst
    | some dst => patching H old delta (k true) st dst
  | .closed, .opens size b e k, _, dst => do
    let self ← Decoder.opens Z P size delta b e
    patching H old delta k self dst
  | .opened, .part n k, self, dst => do
    Decoder.touch
    let (self, out) ← lift (Decompress.decompressPart self n)
    patching H old delta (k (readCells (fun _ => 0) out.cells)) self dst
  | .opened, .close k, self, dst => do
    Decoder.touch
    let verdict ← lift (Decompress.close self)
    patching H old delta (k verdict) () dst

/-- The cache is declared before the state of the plugin and outlives it. -/
def hdiffApply (H : HDiffPatch) (base patch : Bytes) (dst : OutObject) : Method Unit OutObject := do
  let info ← lift (hdiffGate H base patch dst.cells.length)
  vector heap P (info.stepMemSize + H.kStreamCacheSize * 3) fun _ =>
    locally none (owning (do
      let (verdict, dst) ← (if info.compressedSize ≠ 0 then
          patching Z P H (Input base) (Input patch) (H.patchSingleCompressedDiff info true) () dst
        else patching Z P H (Input base) (Input patch) (H.patchSingleCompressedDiff info false) () dst)
      lift (require verdict .invalid)
      return dst) Decoder.destructor)

end

section
variable {P : Placement Block} {rest : Arena Block} {Z : Zstd}

def Exactly {α : Type} (t : Arena Block) (a c : α) (u : Arena Block × Unit) : Prop :=
  a = c ∧ u.1 = t

theorem holding_exactly {α : Type} {b : Block} {body : Nat → Method Unit α} {x : Cxx α}
    {t : Arena Block}
    (h : ∀ p, (t.insert p b).lookup p = some b → Refines (Exactly (t.insert p b))
      (fun u => u.1 = t.insert p b) (body p (t.insert p b, ())) x) :
    Refines (Exactly t) (fun u => u.1 = t) (holding P b body (t, ())) x := by
  refine Refines.holding (fun p _ => h p (Finmap.lookup_insert t)) ?_ ?_
  · intro p a c u hp hu
    obtain ⟨ha, hu⟩ := hu
    simp only [hu, Finmap.lookup_insert, true_and]
    exact ⟨ha, erase_insert hp⟩
  · intro p u hp hu
    simp only [hu, Finmap.lookup_insert, erase_insert hp, and_self]

theorem zstdApply_refines (Z : Zstd) (P : Placement Block) (base src : Bytes) (dst : OutObject)
    (t : Arena Block) :
    Refines (Exactly t) (fun u => u.1 = t) (zstdApply Z P base src dst (t, ()))
      (Native.zstdApply Z base src dst) := by
  unfold zstdApply Native.zstdApply zstdApplyWith
  refine Refines.step rfl fun _ _ => Refines.step rfl fun _ _ => Refines.step rfl fun header _ => ?_
  refine Refines.step rfl fun _ _ => Refines.step rfl fun _ _ => Refines.step rfl fun _ _ => ?_
  cases Z.createDCtx with
  | none => exact ⟨rfl, fun _ => rfl⟩
  | some ctx =>
    refine holding_exactly fun d hd => ?_
    rw [touch_bind _ hd rfl]
    refine Refines.step rfl fun ctx _ => Refines.step rfl fun ctx _ => ?_
    have hpass : ∀ (s s' : ApplyState Z) (u : Arena Block × Unit), Exactly (t.insert d .dctx) s s' u →
        Refines (Pass.Related (Exactly (t.insert d .dctx)) (Exactly (t.insert d .dctx)))
          (fun u => u.1 = t.insert d .dctx) (applyPass Z d src dst.cells.length s u)
          (Native.applyPass Z 65536 65536 src dst.cells.length s') := by
      intro s s' u hs
      obtain ⟨rfl, hu⟩ := hs
      rw [applyPass, touch_bind _ (hu ▸ hd) rfl]
      refine Refines.lift hu fun p _ => ?_
      cases p with
      | next s => exact ⟨rfl, hu⟩
      | stop s => exact ⟨rfl, hu⟩
    refine (Refines.loop rfl hpass _ ⟨rfl, rfl⟩).bind fun s s' u hs => ?_
    obtain ⟨rfl, hu⟩ := hs
    exact Refines.step hu fun _ _ => ⟨rfl, hu⟩

def Decoder.Owns (rest : Arena Block) (u : Arena Block × Decoder) : Prop :=
  Holds u.2 .dctx rest u.1

theorem Decoder.Owns.reset {u : Arena Block × Decoder} (h : Decoder.Owns rest u) :
    Decoder.reset none u = .ok () (rest, none) := by
  obtain ⟨t, p⟩ := u
  rw [Decoder.reset, object_bind, setObject_bind]
  cases p with
  | none =>
    obtain rfl : t = rest := h
    rfl
  | some q =>
    have hlookup : (t, (none : Decoder)).1.lookup q = some Block.dctx := Holds.lookup h
    have herase : t.erase q = rest := Holds.erase h
    change destroy q (t, none) = _
    rw [destroy_lookup hlookup, herase]

theorem Decoder.Owns.renew {u : Arena Block × Decoder} (h : Decoder.Owns rest u) {d : Nat}
    (hd : d ∉ u.1) : ∃ v, Decoder.reset (some d) (u.1.insert d .dctx, u.2) = .ok () v ∧
      Decoder.Owns rest v ∧ v.2 = some d := by
  obtain ⟨t, p⟩ := u
  rw [Decoder.reset, object_bind, setObject_bind]
  cases p with
  | none =>
    obtain rfl : t = rest := h
    exact ⟨_, rfl, ⟨hd, rfl⟩, rfl⟩
  | some q =>
    have hold : Holds (some q) .dctx (rest.insert d .dctx) (t.insert d .dctx) := Holds.create h hd
    refine ⟨(rest.insert d .dctx, some d), ?_, ⟨Holds.fresh h hd, rfl⟩, rfl⟩
    have hlookup : (t.insert d .dctx, some d).1.lookup q = some Block.dctx := hold.lookup
    change destroy q (t.insert d .dctx, some d) = _
    rw [destroy_lookup hlookup, hold.erase]

theorem Decoder.touch_refines {α γ : Type} {R : α → γ → Arena Block × Decoder → Prop}
    {U : Arena Block × Decoder → Prop} {u : Arena Block × Decoder} {f : Unit → Method Decoder α}
    {x : Cxx γ} (h : Decoder.Owns rest u) (hopen : u.2 ≠ none) (hf : Refines R U (f () u) x) :
    Refines R U ((Decoder.touch >>= f) u) x := by
  obtain ⟨t, p⟩ := u
  cases p with
  | none => exact absurd rfl hopen
  | some d =>
    have htouch : (Decoder.touch >>= f) (t, some d) =
        (Ownership.touch d Block.isDCtx >>= f) (t, some d) := rfl
    rw [htouch, touch_bind _ (Holds.lookup h) rfl]
    exact hf

theorem Decoder.opens_refines {u : Arena Block × Decoder} (h : Decoder.Owns rest u) (size : Nat)
    (s : StreamInput) (b e : Nat) :
    Refines (fun a c v => a = c ∧ Decoder.Owns rest v ∧ v.2 ≠ none) (Decoder.Owns rest)
      (Decoder.opens Z P size s b e u) (Decompress.opens Z size s b e) := by
  unfold Decoder.opens Decompress.opens
  refine Refines.step h fun _ _ => ?_
  cases Z.createDCtx with
  | none =>
    change Refines _ _ ((Decoder.reset none >>= fun _ => _) u) _
    rw [bind_returns _ h.reset]
    exact ⟨rfl, fun _ => rfl⟩
  | some ctx =>
    obtain ⟨v, hreset, hv, hdata⟩ := h.renew (P.fresh u.1 .dctx)
    change Refines _ _ ((Decoder.reset (some (P.place u.1 .dctx)) >>= fun _ => _) _) _
    rw [bind_returns _ hreset]
    refine Refines.step hv fun ctx _ => ⟨rfl, hv, ?_⟩
    rw [hdata]
    exact Option.some_ne_none _

/-- Whatever the patching client does, the plugin owns at most one context, and
an open handle has one. -/
theorem patching_refines {H : HDiffPatch} {old delta : StreamInput} {h : Handle} (c : Session h) {st : HandleState Z h}
    {dst : OutObject} {u : Arena Block × Decoder} (hu : Decoder.Owns rest u)
    (hopen : h = .opened → u.2 ≠ none) :
    Refines (fun a y v => a = y ∧ Decoder.Owns rest v) (Decoder.Owns rest)
      (patching Z P H old delta c st dst u) (c.run Z H old delta st dst) := by
  induction c generalizing dst u with
  | finish verdict => exact ⟨rfl, hu⟩
  | throws e => exact ⟨rfl, fun _ => hu⟩
  | readOld pos n k ih => exact Refines.step hu fun r _ => ih r hu hopen
  | readDelta pos n k ih => exact Refines.step hu fun r _ => ih r hu hopen
  | write pos b k ih =>
    unfold patching Session.run
    cases H.memAsHStreamOutput dst pos b with
    | none => exact ih false hu hopen
    | some dst => exact ih true hu hopen
  | opens size b e k ih =>
    refine (Decoder.opens_refines hu size delta b e).bind fun self self' v hv => ?_
    obtain ⟨rfl, hv, hdata⟩ := hv
    exact ih hv fun _ => hdata
  | part n k ih =>
    refine Decoder.touch_refines hu (hopen rfl) (Refines.step hu fun x _ => ?_)
    exact ih _ hu hopen
  | close k ih =>
    refine Decoder.touch_refines hu (hopen rfl) (Refines.step hu fun verdict _ => ?_)
    exact ih verdict hu fun hclosed => by cases hclosed

theorem hdiffApply_refines (Z : Zstd) (H : HDiffPatch) (heap : Heap) (P : Placement Block)
    (base patch : Bytes) (dst : OutObject) (t : Arena Block) :
    Refines (Exactly t) (fun u => u.1 = t) (hdiffApply Z heap P H base patch dst (t, ()))
      (Native.hdiffApply Z H heap base patch dst) := by
  rw [hdiffApply_eq]
  unfold hdiffApply hdiffPatch vector
  refine Refines.step rfl fun info _ => Refines.step rfl fun _ _ => ?_
  refine holding_exactly fun v _ => ?_
  have hstart : Decoder.Owns (t.insert v .vector) (t.insert v .vector, none) := rfl
  have hfinal : ∀ u, Decoder.Owns (t.insert v .vector) u →
      ∃ w, Decoder.destructor u = .ok () w ∧ w.1 = t.insert v .vector :=
    fun u hu => ⟨_, hu.reset, rfl⟩
  refine (Refines.owning (?_ : Refines (fun a c u => a = c ∧ Decoder.Owns (t.insert v .vector) u)
    (Decoder.Owns (t.insert v .vector)) _ _) ?_ hfinal).locally (fun a c u hu => hu) fun u hu => hu
  · split
    · refine (patching_refines (h := .closed) _ hstart (fun h => by cases h)).bind fun x y u hu => ?_
      obtain ⟨rfl, hu⟩ := hu
      exact Refines.step hu fun _ _ => ⟨rfl, hu⟩
    · refine (patching_refines (h := .absent) _ hstart (fun h => by cases h)).bind fun x y u hu => ?_
      obtain ⟨rfl, hu⟩ := hu
      exact Refines.step hu fun _ _ => ⟨rfl, hu⟩
  · intro a c u hu
    obtain ⟨rfl, hu⟩ := hu
    obtain ⟨w, hw, hrest⟩ := hfinal u hu
    exact ⟨w, hw, rfl, hrest⟩

end

def boundary {o α : Type} (m : Method o α) : Method o (Except Status α) := fun s =>
  match m s with
  | .ok a t => .ok (.ok a) t
  | .error .wild t => .error .wild t
  | .error (.fault e) t => match Native.boundary (.error e : Cxx α) with
    | .ok r => .ok r t
    | .error h => .error (.fault (.halt h)) t

def Caught {o α γ ε : Type} (R : α → γ → Arena Block × o → Prop) (U : Arena Block × o → Prop) :
    Except ε α → Except ε γ → Arena Block × o → Prop
  | .ok a, .ok c, u => R a c u
  | .error e, .error e', u => e = e' ∧ U u
  | _, _, _ => False

section
variable (C : Host) (P : Placement Block)

def applyInto (zstd : Bool) (base payload : Bytes) (out : OutObject) :
    Method Unit (Except Status OutObject) :=
  boundary do
    let tn := out.cells.length
    lift (require (tn ≤ rawMax) .limit)
    if zstd then zstdApply C.zstd P base payload out
    else hdiffApply C.zstd C.heap P C.hdiff base payload out

def phdHdiffEncode (base target : Bytes) (o : HDiffOptions) :
    Method Unit (Except Status (Option Nat × Nat)) :=
  boundary do
    let options ← lift (hdiffOptions o)
    Growable.released C.heap P
      (hdiffEncode C.zstd C.heap P C.hdiff C.passes base target options)

def phdZstdEncode (base target : Bytes) (o : ZstdOptions) :
    Method Unit (Except Status (Option Nat × Nat)) :=
  boundary do
    let options ← lift (zstdOptions o)
    Growable.released C.heap P
      (zstdEncode C.zstd C.heap P C.passes base target options kCodecLimits)

def phdZstdCompress (data : Bytes) (level windowLog checksum : Int) :
    Method Unit (Except Status (Option Nat × Nat)) :=
  boundary do
    let options ← lift (zstdOptions ⟨level, windowLog, 0, 1, checksum, 0, 0, 0, 0⟩)
    Growable.released C.heap P (zstdEncode C.zstd C.heap P C.passes [] data options kFrameLimits)

def phdZstdDecompress (data : Bytes) (maxOutput : Nat) :
    Method Unit (Except Status (Option Nat × Nat)) :=
  boundary (Growable.released C.heap P (frameDecompress C.zstd C.heap P data maxOutput))

end

section
variable {C : Host} {P : Placement Block} {t : Arena Block}

theorem boundary_refines {o α γ : Type} {R : α → γ → Arena Block × o → Prop}
    {U U' : Arena Block × o → Prop} {m : Method o α} {s : Arena Block × o} {x : Cxx γ}
    (h : Refines R U (m s) x) :
    Refines (Caught R U) U' (boundary m s) ((Native.boundary x).mapError .halt) := by
  unfold boundary
  cases hm : m s with
  | ok a u =>
    rw [hm] at h
    cases x with
    | ok c => exact h
    | error e => exact h.elim
  | error e u =>
    rw [hm] at h
    cases e with
    | wild => exact h.elim
    | fault e =>
      cases x with
      | ok c => exact h.elim
      | error e' =>
        obtain ⟨rfl, hu⟩ := h
        cases e with
        | halt e => exact ⟨rfl, fun htrap => absurd htrap Bool.false_ne_true⟩
        | thrown e =>
          have hleft := hu rfl
          cases e with
          | failure s => exact ⟨rfl, hleft⟩
          | badAlloc => exact ⟨rfl, hleft⟩
          | exception => exact ⟨rfl, hleft⟩
          | unknown => exact ⟨rfl, hleft⟩

abbrev Hands (t : Arena Block) : Except Status (Option Nat × Nat) → Except Status Cells →
    Arena Block × Unit → Prop :=
  Caught (fun a c u => Given t a c u.1) (fun u => u.1 = t)

theorem applyInto_refines (C : Host) (P : Placement Block) (zstd : Bool) (base payload : Bytes)
    (out : OutObject) (t : Arena Block) {U : Arena Block × Unit → Prop} :
    Refines (Caught (Exactly t) (fun u => u.1 = t)) U (applyInto C P zstd base payload out (t, ()))
      ((C.applyInto zstd base payload out).mapError .halt) := by
  refine boundary_refines (Refines.step rfl fun _ _ => ?_)
  cases zstd with
  | true => exact zstdApply_refines C.zstd P base payload out t
  | false => exact hdiffApply_refines C.zstd C.hdiff C.heap P base payload out t

theorem phdHdiffEncode_refines (C : Host) (P : Placement Block) (base target : Bytes)
    (o : HDiffOptions) (t : Arena Block) {U : Arena Block × Unit → Prop} :
    Refines (Hands t) U (phdHdiffEncode C P base target o (t, ()))
      ((C.phdHdiffEncode base target o).mapError .halt) :=
  boundary_refines (Refines.step rfl fun options _ => Growable.released_refines
    (hdiffEncode_refines C.zstd C.hdiff C.heap P C.passes base target options t))

theorem phdZstdEncode_refines (C : Host) (P : Placement Block) (base target : Bytes)
    (o : ZstdOptions) (t : Arena Block) {U : Arena Block × Unit → Prop} :
    Refines (Hands t) U (phdZstdEncode C P base target o (t, ()))
      ((C.phdZstdEncode base target o).mapError .halt) :=
  boundary_refines (Refines.step rfl fun options _ => Growable.released_refines
    (zstdEncode_refines C.zstd C.heap P C.passes base target options kCodecLimits t))

theorem phdZstdCompress_refines (C : Host) (P : Placement Block) (data : Bytes)
    (level windowLog checksum : Int) (t : Arena Block) {U : Arena Block × Unit → Prop} :
    Refines (Hands t) U (phdZstdCompress C P data level windowLog checksum (t, ()))
      ((C.phdZstdCompress data level windowLog checksum).mapError .halt) :=
  boundary_refines (Refines.step rfl fun options _ => Growable.released_refines
    (zstdEncode_refines C.zstd C.heap P C.passes [] data options kFrameLimits t))

theorem phdZstdDecompress_refines (C : Host) (P : Placement Block) (data : Bytes) (maxOutput : Nat)
    (t : Arena Block) {U : Arena Block × Unit → Prop} :
    Refines (Hands t) U (phdZstdDecompress C P data maxOutput (t, ()))
      ((C.phdZstdDecompress data maxOutput).mapError .halt) :=
  boundary_refines (Growable.released_refines
    (frameDecompress_refines C.zstd C.heap P data maxOutput t))

end

end Pyhdiff.Native.Owned
