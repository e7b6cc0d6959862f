import Pyhdiff.Native.Compress
import Pyhdiff.Native.Decompress

/-! The HDiffPatch codec. HDiffPatch itself is a client of the streams and of the
plugin the bridge hands it: a tree of the calls it makes. -/
namespace Pyhdiff.Native
open Streaming

/-- The fields of `hpatch_singleCompressedDiffInfo` the bridge reads. -/
structure DiffInfo where
  newDataSize : Nat
  oldDataSize : Nat
  uncompressedSize : Nat
  compressedSize : Nat
  diffDataPos : Nat
  coverCount : Nat
  stepMemSize : Nat
  compressType : String

def DiffInfo.encoded (info : DiffInfo) : Nat :=
  if info.compressedSize ≠ 0 then info.compressedSize else info.uncompressedSize

/-- The encoded data fills a payload of `pn` bytes from its position on. -/
def DiffInfo.Fits (info : DiffInfo) (pn : Nat) : Prop :=
  info.diffDataPos ≤ pn ∧ info.encoded = pn - info.diffDataPos

instance (info : DiffInfo) (pn : Nat) : Decidable (info.Fits pn) :=
  inferInstanceAs (Decidable (info.diffDataPos ≤ pn ∧ info.encoded = pn - info.diffDataPos))

inductive Handle where
  | absent | closed | opened

/-- A patching client: it ends with its verdict, or makes one call and goes on
with the answer. The types keep it to handles it has opened. -/
inductive Session : Handle → Type where
  | finish {h : Handle} (verdict : Bool) : Session h
  | throws {h : Handle} (t : Thrown) : Session h
  | readOld {h : Handle} (pos n : Nat) (k : Option Bytes → Session h) : Session h
  | readDelta {h : Handle} (pos n : Nat) (k : Option Bytes → Session h) : Session h
  | write {h : Handle} (pos : Nat) (b : Bytes) (k : Bool → Session h) : Session h
  | opens (size b e : Nat) (k : Session .opened) : Session .closed
  | part (n : Nat) (k : Bytes → Session .opened) : Session .opened
  | close (k : Bool → Session .closed) : Session .opened

/-- A diffing client. A compression it asks for writes from `offset` on and is
abandoned once it would pass `limit`. -/
inductive Diffing where
  | finish
  | throws (t : Thrown)
  | readNew (pos n : Nat) (k : Option Bytes → Diffing)
  | readOld (pos n : Nat) (k : Option Bytes → Diffing)
  | write (pos : Nat) (b : Bytes) (k : Diffing)
  | compress (input : StreamInput) (offset limit : Nat) (k : Nat → Diffing)

/-- A stream over a fixed piece of memory takes what is inside it, and refuses the rest. -/
def memWrite (dst : OutObject) (pos : Nat) (b : Bytes) : Option OutObject :=
  if pos > dst.cells.length ∨ b.length > dst.cells.length - pos then none
  else some (dst.store pos b)

/-- The HDiffPatch entry points the bridge calls. The stream over the new bytes
object is the library's too. -/
structure HDiffPatch where
  kStreamCacheSize : Nat
  memAsHStreamOutput : (dst : OutObject) → (pos : Nat) → Bytes → Option OutObject
  memAsHStreamOutput_eq : ∀ dst pos b, memAsHStreamOutput dst pos b = memWrite dst pos b
  getSingleCompressedDiffInfo : Bytes → Option DiffInfo
  patchSingleCompressedDiff : DiffInfo → (plugin : Bool) →
    Session (if plugin then .closed else .absent)
  createSingleCompressedDiffBlock : (stepMemSize fastBlock matchScore : Int) → Diffing

def isZstd (type : String) : Bool := type == "zstd"

def HandleState (Z : Zstd) : Handle → Type
  | .opened => Decompress Z
  | _ => Unit

def StreamInput.call (s : StreamInput) (pos n : Nat) : Cxx (Option Bytes) :=
  match s.read pos n with
  | .error t => .error (.thrown t)
  | .ok r => .ok r

def Session.run (Z : Zstd) (H : HDiffPatch) (old delta : StreamInput) :
    {h : Handle} → Session h → HandleState Z h → OutObject → Cxx (Bool × OutObject)
  | _, .finish verdict, _, dst => .ok (verdict, dst)
  | _, .throws t, _, _ => .error (.thrown t)
  | _, .readOld pos n k, st, dst => do
    let r ← old.call pos n
    (k r).run Z H old delta st dst
  | _, .readDelta pos n k, st, dst => do
    let r ← delta.call pos n
    (k r).run Z H old delta st dst
  | _, .write pos b k, st, dst =>
    match H.memAsHStreamOutput dst pos b with
    | none => (k false).run Z H old delta st dst
    | some dst => (k true).run Z H old delta st dst
  | .closed, .opens size b e k, _, dst => do
    let self ← Decompress.opens Z size delta b e
    k.run Z H old delta self dst
  | .opened, .part n k, self, dst => do
    let (self, out) ← Decompress.decompressPart self n
    (k (readCells (fun _ => 0) out.cells)).run Z H old delta self dst
  | .opened, .close k, self, dst => do
    let verdict ← Decompress.close self
    (k verdict).run Z H old delta () dst

def hdiffApply (Z : Zstd) (H : HDiffPatch) (heap : Heap) (base patch : Bytes) (dst : OutObject) :
    Cxx OutObject := do
  let bn := base.length
  let pn := patch.length
  let tn := dst.cells.length
  require (bn ≤ rawMax ∧ tn ≤ rawMax ∧ pn ≤ payloadMax) .limit
  let some info := H.getSingleCompressedDiffInfo patch | fail .invalid
  require (info.oldDataSize = bn ∧ info.newDataSize = tn) .invalid
  require (info.stepMemSize ≤ stepMax ∧ info.uncompressedSize ≤ payloadMax) .limit
  require (info.compressType = "" ∨ isZstd info.compressType) .invalid
  require (info.Fits pn) .invalid
  require (info.compressedSize = 0 ∨ info.compressType ≠ "") .invalid
  allocate heap (info.stepMemSize + H.kStreamCacheSize * 3)
  let (verdict, dst) ← (if info.compressedSize ≠ 0 then
      (H.patchSingleCompressedDiff info true).run Z H (Input base) (Input patch) () dst
    else (H.patchSingleCompressedDiff info false).run Z H (Input base) (Input patch) () dst)
  require verdict .invalid
  return dst

def Diffing.run (Z : Zstd) (heap : Heap) (passes : Nat) (o : Options) (new old : StreamInput) :
    Diffing → Output → Cxx Output
  | .finish, out => .ok out
  | .throws t, _ => .error (.thrown t)
  | .readNew pos n k, out => do
    let r ← new.call pos n
    (k r).run Z heap passes o new old out
  | .readOld pos n k, out => do
    let r ← old.call pos n
    (k r).run Z heap passes o new old out
  | .write pos b k, out => do
    let out ← out.write heap pos b
    k.run Z heap passes o new old out
  | .compress input offset limit k, out => do
    let (n, out) ← Native.compress Z (writeWithin heap offset limit) input heap passes o out
    (k n).run Z heap passes o new old out

def hdiffEncode (Z : Zstd) (H : HDiffPatch) (heap : Heap) (passes : Nat) (base target : Bytes)
    (o : Options) : Cxx Growable := do
  require (base.length ≤ rawMax ∧ target.length ≤ rawMax) .limit
  let client := H.createSingleCompressedDiffBlock o.stepBytes o.fastBlockBytes o.matchScore
  let out ← client.run Z heap passes o (Input target) (Input base) ⟨payloadMax, .empty⟩
  return out.bytes

theorem StreamInput.call_safe (s : StreamInput) (pos n : Nat) :
    Safe (fun _ => True) (s.call pos n) := by
  unfold call
  cases s.read pos n <;> trivial

theorem memWrite_length {dst dst' : OutObject} {pos : Nat} {b : Bytes}
    (h : memWrite dst pos b = some dst') : dst'.cells.length = dst.cells.length := by
  unfold memWrite at h
  split at h
  · cases h
  · obtain rfl := Option.some.inj h
    exact overwrite_length (by omega)

def HandleState.InRange {Z : Zstd} : {h : Handle} → HandleState Z h → Prop
  | .opened, self => Decompress.InRange self
  | _, _ => True

/-- Whatever a client does, its calls end by returning or by an exception, and
the output object keeps its length. -/
theorem Session.run_safe {Z : Zstd} {H : HDiffPatch} {old delta : StreamInput} {h : Handle} (c : Session h)
    {st : HandleState Z h} (hst : st.InRange) (dst : OutObject) :
    Safe (fun x => x.2.cells.length = dst.cells.length) (c.run Z H old delta st dst) := by
  induction c generalizing dst with
  | finish verdict => rfl
  | throws t => trivial
  | readOld pos n k ih => exact (old.call_safe pos n).bind fun r _ => ih r hst dst
  | readDelta pos n k ih => exact (delta.call_safe pos n).bind fun r _ => ih r hst dst
  | write pos b k ih =>
    unfold run
    rw [H.memAsHStreamOutput_eq]
    cases hw : memWrite dst pos b with
    | none => exact ih false hst dst
    | some dst' => exact (ih true hst dst').mono fun x hx => hx.trans (memWrite_length hw)
  | opens size b e k ih =>
    exact (Decompress.opens_safe Z size delta b e).bind fun self hself => ih hself dst
  | part n k ih =>
    exact (Decompress.decompressPart_safe hst n).bind fun x hx => ih _ hx.2.1 dst
  | close k ih => exact (Decompress.close_safe hst).bind fun v _ => ih v trivial dst

theorem safe_allocate (heap : Heap) (n : Nat) : Safe (fun _ => True) (allocate heap n) := by
  unfold allocate
  split <;> trivial

theorem hdiffApply_safe (Z : Zstd) (H : HDiffPatch) (heap : Heap) (base patch : Bytes)
    (dst : OutObject) :
    Safe (fun d => d.cells.length = dst.cells.length) (hdiffApply Z H heap base patch dst) := by
  unfold hdiffApply
  refine (safe_require _ _).bind fun _ _ => ?_
  cases H.getSingleCompressedDiffInfo patch with
  | none => trivial
  | some info =>
    refine (safe_require _ _).bind fun _ _ => (safe_require _ _).bind fun _ _ => ?_
    refine (safe_require _ _).bind fun _ _ => (safe_require _ _).bind fun _ _ => ?_
    refine (safe_require _ _).bind fun _ _ => (safe_allocate heap _).bind fun _ _ => ?_
    have hclient : Safe (fun x : Bool × OutObject => x.2.cells.length = dst.cells.length)
        (if info.compressedSize ≠ 0 then
          (H.patchSingleCompressedDiff info true).run Z H (Input base) (Input patch) () dst
        else (H.patchSingleCompressedDiff info false).run Z H (Input base) (Input patch) () dst) := by
      split
      · exact Session.run_safe (h := .closed) (H.patchSingleCompressedDiff info true) trivial dst
      · exact Session.run_safe (h := .absent) (H.patchSingleCompressedDiff info false) trivial dst
    refine hclient.bind fun x hx => (safe_require _ _).bind fun _ _ => ?_
    exact hx

def Output.Bounded (limit : Nat) (out : Output) : Prop :=
  out.limit = limit ∧ out.bytes.size ≤ limit

theorem Output.write_bounded {heap : Heap} {limit pos : Nat} {b : Bytes} {out out' : Output}
    (h : out.Bounded limit) (hwrite : out.write heap pos b = .ok out') : out'.Bounded limit := by
  obtain ⟨rfl, hsize⟩ := h
  simp only [Output.write, bind_eq_ok, require_eq_ok] at hwrite
  obtain ⟨-, hlimit, -, hpos, bytes, hbytes, -, -, hout⟩ := hwrite
  obtain rfl := Except.ok.inj hout
  refine ⟨rfl, ?_⟩
  change bytes.size ≤ out.limit
  split at hbytes
  · rename_i hgrow
    cases Growable.resize_cases heap .source (Nat.le_of_lt hgrow) with
    | inl h =>
      obtain ⟨g, hg, hgsize, -⟩ := h
      obtain rfl := Except.ok.inj (hbytes.symm.trans hg)
      omega
    | inr h =>
      obtain ⟨hg, -⟩ := h
      rw [hg] at hbytes
      cases hbytes
  · obtain rfl := Except.ok.inj hbytes
    exact hsize

theorem writeWithin_bounded {heap : Heap} {limit offset bound pos : Nat} {b : Bytes}
    {out out' : Output} (h : out.Bounded limit)
    (hwrite : writeWithin heap offset bound out pos b = .ok (some out')) : out'.Bounded limit := by
  unfold writeWithin at hwrite
  split at hwrite
  · cases hwrite
  · rw [bind_eq_ok] at hwrite
    obtain ⟨out₁, h₁, h₂⟩ := hwrite
    obtain rfl := Option.some.inj (Except.ok.inj h₂)
    exact Output.write_bounded h h₁

theorem Diffing.run_bounded {Z : Zstd} {heap : Heap} {passes limit : Nat} {o : Options}
    {new old : StreamInput} (c : Diffing) {out out' : Output} (hout : out.Bounded limit)
    (h : c.run Z heap passes o new old out = .ok out') : out'.Bounded limit := by
  induction c generalizing out with
  | finish =>
    obtain rfl := Except.ok.inj h
    exact hout
  | throws t => cases h
  | readNew pos n k ih =>
    obtain ⟨r, -, h⟩ := bind_eq_ok.mp h
    exact ih r hout h
  | readOld pos n k ih =>
    obtain ⟨r, -, h⟩ := bind_eq_ok.mp h
    exact ih r hout h
  | write pos b k ih =>
    obtain ⟨out₁, hwrite, h⟩ := bind_eq_ok.mp h
    exact ih (Output.write_bounded hout hwrite) h
  | compress input offset bound k ih =>
    obtain ⟨⟨n, out₁⟩, hcompress, h⟩ := bind_eq_ok.mp h
    exact ih n (compress_preserves (P := Output.Bounded limit) writeWithin_bounded hout hcompress) h

theorem hdiffEncode_bounded {Z : Zstd} {H : HDiffPatch} {heap : Heap} {passes : Nat}
    {base target : Bytes} {o : Options} {out : Growable}
    (h : hdiffEncode Z H heap passes base target o = .ok out) :
    base.length ≤ rawMax ∧ target.length ≤ rawMax ∧ out.size ≤ payloadMax := by
  simp only [hdiffEncode, bind_eq_ok, require_eq_ok] at h
  obtain ⟨-, hlimits, out₁, hrun, h⟩ := h
  obtain rfl := Except.ok.inj h
  exact ⟨hlimits.1, hlimits.2, (Diffing.run_bounded _ ⟨rfl, Nat.zero_le _⟩ hrun).2⟩

end Pyhdiff.Native
