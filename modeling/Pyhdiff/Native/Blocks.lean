import Pyhdiff.Native.Streams
import Pyhdiff.Ownership.Action

/-! The growable block and the output stream at the level of addresses: `realloc`,
a pointer that owns its block, spans into it, moves and destructors. -/
namespace Pyhdiff.Native.Owned
open Ownership

/-- What lives at an address: storage of `malloc`, a context of zstd, the storage
of a vector, a bytes object of the interpreter. -/
inductive Block where
  | bytes (cells : Cells)
  | cctx | dctx | vector
  | object (cells : Cells)

def Block.isBytes : Block → Bool
  | .bytes _ => true
  | _ => false

def Block.isCCtx : Block → Bool
  | .cctx => true
  | _ => false

def Block.isDCtx : Block → Bool
  | .dctx => true
  | _ => false

def Block.isVector : Block → Bool
  | .vector => true
  | _ => false

instance : Unwinding Fault where
  unwinds
    | .thrown _ => true
    | .halt _ => false

abbrev Method (o α : Type) := Action Fault Block o α

section
variable {o : Type} (heap : Heap) (P : Placement Block)

def place (cells : Cells) : Method o (Option Nat) := do
  let p ← create P (.bytes cells)
  return some p

/-- A null pointer is answered when the request is refused; the block is then as
it was. Otherwise it may have moved. -/
def realloc (p : Option Nat) (n : Nat) : Method o (Option Nat) := fun s =>
  match p with
  | none =>
    if heap.realloc 0 n then place P (List.replicate n none) s else .ok none s
  | some p => match s.1.lookup p with
    | some (.bytes cells) =>
      if heap.realloc cells.length n then
        place P (cells.take n ++ List.replicate (n - cells.length) none) (s.1.erase p, s.2)
      else .ok none s
    | _ => wild s

def free (p : Option Nat) : Method o Unit :=
  match p with
  | none => pure ()
  | some p => do
    touch p Block.isBytes
    destroy p

/-- A pointer with a length, into a block or null. -/
structure Span where
  data : Option Nat
  start : Nat
  length : Nat

def Span.subspan (d : Span) (pos n : Nat) : Cxx Span :=
  if pos ≤ d.length ∧ n ≤ d.length - pos then .ok ⟨d.data, d.start + pos, n⟩
  else .error (.halt .trap)

def Span.store (d : Span) (b : Bytes) : Method o Unit :=
  if b = [] then pure ()
  else match d.data with
    | none => wild
    | some p => access p fun block => match block with
      | .bytes cells =>
        if b.length ≤ d.length ∧ d.start + b.length ≤ cells.length then
          some (.bytes (overwrite cells d.start b))
        else none
      | _ => none

structure Growable where
  data : Option Nat
  size : Nat
  capacity : Nat

namespace Growable

def empty : Growable := ⟨none, 0, 0⟩

def bytes (g : Growable) : Span := ⟨g.data, 0, g.size⟩

def growTo (n : Nat) : Method Growable Unit := do
  let self ← object
  match ← realloc heap P self.data n with
  | none => lift (.error (.thrown .badAlloc))
  | some p => setObject { self with data := some p, capacity := n }

def reserve (n : Nat) : Method Growable Unit :=
  if n ≠ 0 then growTo heap P n else pure ()

def spare (minimum : Nat) : Method Growable Span := do
  let self ← object
  if self.capacity - self.size < minimum then
    growTo heap P (max (self.size + minimum) (self.capacity + self.capacity / 2))
  let self ← object
  lift ((⟨self.data, 0, self.capacity⟩ : Span).subspan self.size (self.capacity - self.size))

def resize (n : Nat) : Method Growable Unit := do
  let self ← object
  if n > self.size then
    let _ ← spare heap P (n - self.size)
  let self ← object
  setObject { self with size := n }

def append (b : Bytes) : Method Growable Unit := do
  let dst ← spare heap P b.length
  dst.store b
  let self ← object
  setObject { self with size := self.size + b.length }

def give : Method Growable (Option Nat × Nat) := do
  let self ← object
  setObject { self with data := none }
  return (self.data, self.size)

def release : Method Growable (Option Nat × Nat) := do
  let self ← object
  if self.data = none then growTo heap P 1
  give

/-- The pointer is null afterwards; the two sizes stay. -/
def move : Method Growable Growable := do
  let self ← object
  setObject { self with data := none }
  return self

def destructor : Method Growable Unit := do
  let self ← object
  free self.data

/-- A function with a local block that it returns by value. -/
def making (body : Method Growable Unit) : Method Unit Growable :=
  locally .empty (owning (do body; move) destructor)

/-- `.release()` of a block returned by value, which is then destroyed. -/
def released (make : Method Unit Growable) : Method Unit (Option Nat × Nat) := do
  let g ← make
  locally g (owning (release heap P) destructor)

end Growable

def Output.store (pos : Nat) (src : Bytes) : Method Growable Unit := do
  let self ← object
  let dst ← lift (self.bytes.subspan pos src.length)
  dst.store src

def Output.write (limit pos : Nat) (src : Bytes) : Method Growable Unit := do
  let self ← object
  lift (require (pos ≤ limit ∧ src.length ≤ limit - pos) .limit)
  lift (require (pos ≤ self.size) .invalid)
  let finish := pos + src.length
  if finish > self.size then Growable.resize heap P finish
  Output.store pos src

end

/-- The block of `g` is the storage of `m`, and the others hold `rest`. -/
structure Growable.Models (g : Growable) (m : Native.Growable) (rest t : Arena Block) : Prop where
  size : g.size = m.size
  capacity : g.capacity = m.capacity
  null : g.data = none ↔ m.cells = []
  holds : Holds g.data (.bytes m.cells) rest t

/-- A pointer and a size for a block that starts with the bytes `c`, and that
nobody in `rest` holds. -/
def Given (rest : Arena Block) (a : Option Nat × Nat) (c : Cells) (t : Arena Block) : Prop :=
  ∃ p cells, a = (some p, c.length) ∧ cells.take c.length = c ∧ Holds (some p) (.bytes cells) rest t

def Growable.Owns (rest : Arena Block) (s : Arena Block × Growable) : Prop :=
  ∃ m, s.2.Models m rest s.1

section
variable {o : Type} {heap : Heap} {P : Placement Block} {rest t : Arena Block}
variable {g : Growable} {m : Native.Growable}

theorem Growable.Models.realloc (h : g.Models m rest t) (n : Nat) (x : o) :
    (heap.realloc m.capacity n = true → ∃ p t', realloc heap P g.data n (t, x) = .ok (some p) (t', x) ∧
      Holds (some p) (.bytes (m.cells.take n ++ List.replicate (n - m.capacity) none)) rest t') ∧
    (heap.realloc m.capacity n = false → realloc heap P g.data n (t, x) = .ok none (t, x)) := by
  obtain ⟨-, -, hnull, hholds⟩ := h
  unfold Owned.realloc
  cases hdata : g.data with
  | none =>
    have hcells : m.cells = [] := hnull.mp hdata
    have hcapacity : m.capacity = 0 := by rw [Native.Growable.capacity, hcells, List.length_nil]
    rw [hdata] at hholds
    obtain rfl : t = rest := hholds
    simp only [hcapacity, hcells, List.take_nil, List.nil_append, Nat.sub_zero]
    constructor
    · intro hgranted
      rw [if_pos hgranted]
      exact ⟨_, _, rfl, P.fresh _ _, rfl⟩
    · intro hrefused
      rw [if_neg (by rw [hrefused]; exact Bool.false_ne_true)]
  | some p =>
    rw [hdata] at hholds
    have hlength : m.cells.length = m.capacity := rfl
    simp only [hholds.lookup, hlength]
    constructor
    · intro hgranted
      rw [if_pos hgranted]
      refine ⟨_, _, rfl, ?_, ?_⟩
      · rw [← hholds.erase]
        exact P.fresh _ _
      · rw [← hholds.erase]
    · intro hrefused
      rw [if_neg (by rw [hrefused]; exact Bool.false_ne_true)]

theorem Growable.Models.growTo (h : g.Models m rest t) (minimum : Nat) {n : Nat}
    (hn : m.size + minimum ≤ n) (hpos : 0 < n) :
    Refines (fun _ r s => s.2.Models r.block rest s.1) (Owns rest)
      (Growable.growTo heap P n (t, g)) (m.growTo heap minimum n hn) := by
  unfold Growable.growTo Native.Growable.growTo
  rw [object_bind]
  by_cases hgranted : heap.realloc m.capacity n = true
  · obtain ⟨p, t', hrealloc, hholds⟩ := (h.realloc n g).1 hgranted
    rw [bind_returns _ hrealloc, if_pos hgranted]
    refine ⟨h.size, ?_, ?_, hholds⟩
    · exact (Native.Growable.grown_capacity m n (by omega)).symm
    · have hlength := Native.Growable.grown_capacity m n (by omega)
      constructor
      · intro hnone
        cases hnone
      · intro hnil
        have hzero : n = 0 := hlength.symm.trans (congrArg List.length hnil)
        omega
  · rw [bind_returns _ ((h.realloc n g).2 (by simpa using hgranted)), if_neg hgranted]
    exact ⟨rfl, fun _ => ⟨m, h⟩⟩

theorem Growable.Models.span (h : g.Models m rest t) :
    (⟨g.data, 0, g.capacity⟩ : Span).subspan g.size (g.capacity - g.size) =
      .ok ⟨g.data, m.size, m.capacity - m.size⟩ := by
  have hsize : m.size ≤ m.capacity := m.size_le
  rw [Span.subspan, if_pos ⟨by rw [h.size, h.capacity]; exact hsize, Nat.le_refl _⟩, h.size, h.capacity,
    Nat.zero_add]

theorem Growable.Models.spare (h : g.Models m rest t) (minimum : Nat) :
    Refines (fun d r s => s.2.Models r.block rest s.1 ∧
        d = ⟨s.2.data, r.block.size, r.block.capacity - r.block.size⟩)
      (Owns rest) (Growable.spare heap P minimum (t, g)) (m.spare heap .source minimum) := by
  unfold Growable.spare Native.Growable.spare
  rw [object_bind]
  by_cases hshort : m.capacity - m.size < minimum
  · rw [dif_pos hshort]
    simp only [h.size, h.capacity, if_pos hshort]
    have hfits : m.size + minimum ≤ max (m.size + minimum) (m.capacity + m.capacity / 2) :=
      Nat.le_max_left _ _
    rw [← bind_pure (m.growTo heap minimum _ _)]
    refine (h.growTo minimum hfits (by omega)).bind fun u r s hs => ?_
    rw [object_bind, hs.span]
    exact ⟨hs, rfl⟩
  · rw [dif_neg hshort]
    simp only [h.size, h.capacity, if_neg hshort]
    change Refines _ _ (lift _ (t, g)) _
    rw [h.span]
    exact ⟨h, rfl⟩

theorem Growable.Models.store {o : Type} (h : g.Models m rest t) (start : Nat) {n : Nat} {b : Bytes}
    (x : o)
    (hb : b.length ≤ n) (hn : start + n ≤ m.capacity) :
    ∃ t', (⟨g.data, start, n⟩ : Span).store b (t, x) = .ok () (t', x) ∧
      g.Models (m.put start b) rest t' := by
  obtain ⟨hsize, hcapacity, hnull, hholds⟩ := h
  unfold Span.store
  by_cases hnil : b = []
  · rw [if_pos hnil]
    refine ⟨t, rfl, hsize, ?_, ?_, ?_⟩
    · rw [hcapacity]
      simp only [Native.Growable.capacity, Native.Growable.put, hnil, overwrite_nil]
    · simpa only [Native.Growable.put, hnil, overwrite_nil] using hnull
    · simpa only [Native.Growable.put, hnil, overwrite_nil] using hholds
  · rw [if_neg hnil]
    have hpos := List.length_pos_iff.mpr hnil
    have hlength : (overwrite m.cells start b).length = m.cells.length :=
      overwrite_length (Nat.le_trans (Nat.add_le_add_left hb start) hn)
    cases hdata : g.data with
    | none =>
      have hcells : m.cells = [] := hnull.mp hdata
      simp only [Native.Growable.capacity, hcells, List.length_nil] at hn
      omega
    | some p =>
      rw [hdata] at hholds
      refine ⟨t.insert p (.bytes (overwrite m.cells start b)), ?_, hsize, ?_, ?_, ?_⟩
      · have hinside : start + b.length ≤ m.cells.length :=
          Nat.le_trans (Nat.add_le_add_left hb start) hn
        simp only [access, hholds.lookup, Option.bind_eq_bind, Option.bind_some,
          if_pos (And.intro hb hinside)]
      · exact hcapacity.trans hlength.symm
      · rw [hnull]
        simp only [Native.Growable.put, ← List.length_eq_zero_iff, hlength]
      · rw [hdata]
        exact hholds.replace _

theorem Growable.Models.resized (h : g.Models m rest t) (n : Nat) (hn : n ≤ m.cells.length) :
    ({ g with size := n } : Growable).Models ⟨m.cells, n, hn⟩ rest t :=
  ⟨rfl, h.capacity, h.null, h.holds⟩

theorem Growable.Models.resize (h : g.Models m rest t) (n : Nat) :
    Refines (fun _ m' s => s.2.Models m' rest s.1) (Owns rest) (Growable.resize heap P n (t, g))
      (m.resize heap .source n) := by
  unfold Growable.resize Native.Growable.resize
  rw [object_bind]
  by_cases hlt : m.size < n
  · rw [dif_pos hlt]
    simp only [h.size, gt_iff_lt, if_pos hlt]
    change Refines _ _ ((Growable.spare heap P (n - m.size) >>= fun _ => _) (t, g)) _
    refine (h.spare (n - m.size)).bind fun d r s hs => ?_
    exact hs.1.resized n _
  · rw [dif_neg hlt]
    simp only [h.size, gt_iff_lt, if_neg hlt]
    exact h.resized n _

theorem Growable.Models.append (h : g.Models m rest t) (b : Bytes) :
    Refines (fun _ m' s => s.2.Models m' rest s.1) (Owns rest) (Growable.append heap P b (t, g))
      (m.append heap .source b) := by
  unfold Growable.append Native.Growable.append
  refine (h.spare b.length).bind fun d r s hs => ?_
  obtain ⟨hs, rfl⟩ := hs
  have hroom := r.room
  rw [← r.size_eq] at hroom
  have hfits : b.length ≤ r.block.capacity - r.block.size := by omega
  obtain ⟨t', hstore, ht'⟩ := hs.store r.block.size s.2 hfits (by omega)
  rw [bind_returns _ hstore, object_bind]
  have hsize : s.2.size = m.size := hs.size.trans r.size_eq
  exact ⟨congrArg (· + b.length) hsize, ht'.capacity, ht'.null, ht'.holds⟩

theorem Growable.Models.copied (h : g.Models m rest t) (limit pos : Nat) (src : Bytes) :
    Refines (fun _ out s => out.limit = limit ∧ s.2.Models out.bytes rest s.1) (Owns rest)
      (Output.store pos src (t, g)) (do
        let _ ← Native.subspan m.contents pos src.length
        return ({ limit := limit, bytes := m.put pos src } : Native.Output)) := by
  unfold Output.store
  rw [object_bind]
  have hlength := m.contents_length
  by_cases hin : pos ≤ m.size ∧ src.length ≤ m.size - pos
  · have hspan : g.bytes.subspan pos src.length = .ok ⟨g.data, pos, src.length⟩ := by
      rw [Span.subspan, Growable.bytes, h.size, if_pos hin, Nat.zero_add]
    obtain ⟨t', hstore, ht'⟩ := h.store pos g (Nat.le_refl src.length)
      (by have := m.size_le; unfold Native.Growable.capacity; omega)
    rw [hspan, subspan_ok (by omega) (by omega)]
    change Refines _ _ ((⟨g.data, pos, src.length⟩ : Span).store src (t, g)) _
    rw [hstore]
    exact ⟨rfl, ht'⟩
  · have hspan : g.bytes.subspan pos src.length = .error (.halt .trap) := by
      rw [Span.subspan, Growable.bytes, h.size, if_neg hin]
    have hmodel : Native.subspan m.contents pos src.length = .error (.halt .trap) := by
      rw [Native.subspan, hlength, if_neg hin]
    rw [hspan, hmodel]
    exact ⟨rfl, fun htrap => absurd htrap Bool.false_ne_true⟩

theorem Growable.Models.write (h : g.Models m rest t) (limit pos : Nat) (src : Bytes) :
    Refines (fun _ out s => out.limit = limit ∧ s.2.Models out.bytes rest s.1) (Owns rest)
      (Output.write heap P limit pos src (t, g)) ((⟨limit, m⟩ : Native.Output).write heap pos src) := by
  unfold Output.write Native.Output.write
  rw [object_bind]
  refine Refines.step ⟨m, h⟩ fun _ _ => ?_
  simp only [h.size]
  refine Refines.step ⟨m, h⟩ fun _ _ => ?_
  by_cases hgrow : m.size < pos + src.length
  · simp only [gt_iff_lt, if_pos hgrow]
    exact (h.resize (pos + src.length)).bind fun _ m' s hs => hs.copied limit pos src
  · simp only [gt_iff_lt, if_neg hgrow]
    exact h.copied limit pos src

theorem Growable.Models.give (h : g.Models m rest t) (hdata : g.data ≠ none) :
    ∃ p, Growable.give (t, g) = .ok (some p, m.contents.length) (t, { g with data := none }) ∧
      Holds (some p) (.bytes m.cells) rest t := by
  obtain ⟨p, hp⟩ := Option.ne_none_iff_exists'.mp hdata
  have hholds := h.holds
  rw [hp] at hholds
  refine ⟨p, ?_, hholds⟩
  rw [Growable.give, object_bind, setObject_bind, hp, h.size, m.contents_length]
  rfl

theorem Growable.Models.release (h : g.Models m rest t) :
    Refines (fun a c s => Given rest a c s.1 ∧ s.2.data = none) (Owns rest)
      (Growable.release heap P (t, g)) (m.release heap) := by
  unfold Growable.release Native.Growable.release
  rw [object_bind]
  have hzero : m.capacity = 0 ↔ g.data = none := by
    rw [h.null]
    exact List.length_eq_zero_iff
  by_cases hnone : g.data = none
  · have hcapacity := hzero.mpr hnone
    rw [dif_pos hcapacity]
    simp only [if_pos hnone]
    have hsize : m.size = 0 := Nat.le_zero.mp (hcapacity ▸ m.size_le)
    have hone : m.size + 1 ≤ 1 := by omega
    refine (h.growTo 1 hone Nat.one_pos).bind fun _ r s hs => ?_
    have hdata : s.2.data ≠ none := by
      intro hdata
      have hroom := r.room
      simp only [Native.Growable.capacity, hs.null.mp hdata, List.length_nil] at hroom
      omega
    obtain ⟨p, hgive, hholds⟩ := hs.give hdata
    rw [r.contents_eq] at hgive
    change Refines _ _ (Growable.give s) _
    rw [hgive]
    refine ⟨⟨p, r.block.cells, rfl, ?_, hholds⟩, rfl⟩
    rw [← r.contents_eq, r.block.contents_length]
    rfl
  · rw [dif_neg (mt hzero.mp hnone)]
    simp only [if_neg hnone]
    obtain ⟨p, hgive, hholds⟩ := h.give hnone
    change Refines _ _ (Growable.give (t, g)) _
    rw [hgive]
    refine ⟨⟨p, m.cells, rfl, ?_, hholds⟩, rfl⟩
    rw [m.contents_length]
    rfl

theorem free_holds {p : Nat} {cells : Cells} {x : o} (h : Holds (some p) (.bytes cells) rest t) :
    free (some p) (t, x) = .ok () (rest, x) := by
  have hlookup : (t, x).1.lookup p = some (.bytes cells) := h.lookup
  change (touch p Block.isBytes >>= fun _ => destroy p) (t, x) = _
  rw [touch_bind _ hlookup rfl, destroy_lookup hlookup, h.erase]

theorem Growable.Owns.destructor {s : Arena Block × Growable} (h : Growable.Owns rest s) :
    ∃ u, Growable.destructor s = .ok () u ∧ u.1 = rest := by
  obtain ⟨m, -, -, -, hholds⟩ := h
  unfold Growable.destructor
  rw [object_bind]
  cases hdata : s.2.data with
  | none =>
    rw [hdata] at hholds
    exact ⟨s, rfl, hholds⟩
  | some p =>
    rw [hdata] at hholds
    exact ⟨_, free_holds hholds, rfl⟩

theorem Growable.destructor_null {s : Arena Block × Growable} (h : s.2.data = none) :
    Growable.destructor s = .ok () s := by
  unfold Growable.destructor
  rw [object_bind, h]
  rfl

theorem Growable.models_empty (rest : Arena Block) : Growable.empty.Models .empty rest rest :=
  ⟨rfl, rfl, iff_of_true rfl rfl, rfl⟩

theorem Growable.reserve_refines (rest : Arena Block) (n : Nat) :
    Refines (fun _ m s => s.2.Models m rest s.1) (Owns rest) (Growable.reserve heap P n (rest, .empty))
      (Native.Growable.reserve heap n) := by
  have hempty := Growable.models_empty rest
  unfold Growable.reserve Native.Growable.reserve
  by_cases hn : n = 0
  · simp only [ne_eq, hn, not_true_eq_false, if_false]
    exact hempty
  · simp only [ne_eq, hn, not_false_eq_true, if_true]
    have hfits : Native.Growable.empty.size + n ≤ n := Nat.le_of_eq (Nat.zero_add n)
    rw [← bind_pure (Growable.growTo heap P n)]
    exact (hempty.growTo n hfits (Nat.pos_of_ne_zero hn)).bind fun _ r s hs => hs

theorem Growable.making_refines {body : Method Growable Unit} {x : Cxx Native.Growable}
    (h : Refines (fun _ m s => s.2.Models m rest s.1) (Owns rest) (body (rest, .empty)) x) :
    Refines (fun g m s => g.Models m rest s.1) (fun s => s.1 = rest) (Growable.making body (rest, ()))
      x := by
  have hmoved : Refines (fun g m s => s.2.data = none ∧ g.Models m rest s.1) (Owns rest)
      ((do body; Growable.move : Method Growable Growable) (rest, .empty)) x := by
    rw [← bind_pure x]
    exact h.bind fun _ m s hs => ⟨rfl, hs⟩
  have howned : Refines (fun g m s => g.Models m rest s.1) (fun s => s.1 = rest)
      (owning (do body; Growable.move) Growable.destructor (rest, .empty)) x :=
    hmoved.owning (fun g m s hs => ⟨s, Growable.destructor_null hs.1, hs.2⟩) fun _ => Owns.destructor
  exact howned.locally (fun _ _ _ hs => hs) fun _ hs => hs

theorem Growable.released_refines {make : Method Unit Growable} {x : Cxx Native.Growable}
    (h : Refines (fun g m s => g.Models m rest s.1) (fun s => s.1 = rest) (make (rest, ())) x) :
    Refines (fun a c s => Given rest a c s.1) (fun s => s.1 = rest)
      (Growable.released heap P make (rest, ())) (x >>= Native.Growable.release heap) := by
  unfold Growable.released
  refine h.bind fun g m s hs => ?_
  have hreleased : Refines (fun a c s => Given rest a c s.1) (fun s => s.1 = rest)
      (owning (Growable.release heap P) Growable.destructor (s.1, g)) (m.release heap) :=
    hs.release.owning (fun a c s hs => ⟨s, Growable.destructor_null hs.2, hs.1⟩) fun _ =>
      Owns.destructor
  exact hreleased.locally (fun _ _ _ hs => hs) fun _ hs => hs

end

end Pyhdiff.Native.Owned
