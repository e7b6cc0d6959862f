import Pyhdiff.Native.Failure

/-! Storage that is not zero-filled. A cell nobody has written holds `none`. -/
namespace Pyhdiff.Native

abbrev Cells := List (Option UInt8)

def overwrite (cells : Cells) (pos : Nat) (b : Bytes) : Cells :=
  cells.take pos ++ b.map some ++ cells.drop (pos + b.length)

theorem overwrite_length {cells : Cells} {pos : Nat} {b : Bytes}
    (h : pos + b.length ≤ cells.length) : (overwrite cells pos b).length = cells.length := by
  simp only [overwrite, List.length_append, List.length_take, List.length_map, List.length_drop]
  omega

theorem overwrite_take {cells : Cells} {pos : Nat} {b : Bytes}
    (h : pos + b.length ≤ cells.length) :
    (overwrite cells pos b).take (pos + b.length) = cells.take pos ++ b.map some := by
  have hl : (cells.take pos ++ b.map some).length = pos + b.length := by
    simp only [List.length_append, List.length_take, List.length_map]
    omega
  rw [overwrite, ← hl, List.take_left]

theorem overwrite_nil (cells : Cells) (pos : Nat) : overwrite cells pos [] = cells := by
  simp [overwrite]

/-- What a reader of the cells sees; `stale` is whatever an unwritten cell holds. -/
def readCells (stale : Nat → UInt8) (cells : Cells) : Bytes :=
  cells.mapIdx fun i c => c.getD (stale i)

@[simp] theorem readCells_map_some (stale : Nat → UInt8) (b : Bytes) :
    readCells stale (b.map some) = b := by
  apply List.ext_getElem
  · simp [readCells]
  · intro i h h'
    simp [readCells]

@[simp] theorem readCells_length (stale : Nat → UInt8) (cells : Cells) :
    (readCells stale cells).length = cells.length := by simp [readCells]

/-- A freshly created bytes object being filled. The log holds the offsets
stored so far, in order. -/
structure OutObject where
  cells : Cells
  writes : List Nat

def OutObject.fresh (n : Nat) : OutObject := ⟨List.replicate n none, []⟩

def OutObject.store (o : OutObject) (pos : Nat) (b : Bytes) : OutObject :=
  ⟨overwrite o.cells pos b, o.writes ++ List.range' pos b.length⟩

/-- The object has `n` bytes and holds `b` from its start, each byte stored once
and in order, and nothing else was stored. -/
structure OutObject.Wrote (o : OutObject) (n : Nat) (b : Bytes) : Prop where
  length : o.cells.length = n
  le : b.length ≤ n
  held : o.cells.take b.length = b.map some
  log : o.writes = List.range b.length

@[simp] theorem OutObject.store_nil (o : OutObject) (pos : Nat) : o.store pos [] = o := by
  simp [store, overwrite_nil]

theorem OutObject.fresh_wrote (n : Nat) : (OutObject.fresh n).Wrote n [] :=
  ⟨by simp [fresh], Nat.zero_le n, by simp, rfl⟩

theorem OutObject.Wrote.store {o : OutObject} {n : Nat} {b c : Bytes} (h : o.Wrote n b)
    (hc : b.length + c.length ≤ n) : (o.store b.length c).Wrote n (b ++ c) := by
  have hle : b.length + c.length ≤ o.cells.length := by rw [h.length]; exact hc
  refine ⟨?_, by rw [List.length_append]; exact hc, ?_, ?_⟩
  · rw [OutObject.store, overwrite_length hle, h.length]
  · rw [List.length_append, OutObject.store, overwrite_take hle, h.held, List.map_append]
  · simp only [OutObject.store, h.log, List.length_append, List.range_eq_range']
    simpa using (List.range'_append_1 : List.range' 0 b.length ++ List.range' (0 + b.length) c.length = _)

theorem OutObject.Wrote.full {o : OutObject} {n : Nat} {b : Bytes} (h : o.Wrote n b)
    (hb : b.length = n) : o = ⟨b.map some, List.range n⟩ := by
  have hheld := h.held
  rw [List.take_of_length_le (Nat.le_of_eq (h.length.trans hb.symm))] at hheld
  obtain ⟨cells, writes⟩ := o
  rw [← hheld, ← hb, ← h.log]

/-- Which allocations succeed. Within one call the requests of a growing block
ask for ever more, so an answer per request covers every pattern. -/
structure Heap where
  realloc : (capacity n : Nat) → Bool
  new : Nat → Bool

def Heap.Grants (heap : Heap) : Prop := (∀ c n, heap.realloc c n = true) ∧ ∀ n, heap.new n = true

structure Growth where
  target : (size capacity minimum : Nat) → Nat
  enough : ∀ size capacity minimum, size + minimum ≤ target size capacity minimum

def Growth.source : Growth where
  target size capacity minimum := max (size + minimum) (capacity + capacity / 2)
  enough _ _ _ := Nat.le_max_left _ _

structure Growable where
  cells : Cells
  size : Nat
  size_le : size ≤ cells.length

namespace Growable

def empty : Growable := ⟨[], 0, Nat.le_refl 0⟩

def capacity (g : Growable) : Nat := g.cells.length

def contents (g : Growable) : Cells := g.cells.take g.size

/-- `realloc` keeps what the block held; the new tail is unwritten. -/
def grown (g : Growable) (n : Nat) (h : g.size ≤ n) : Growable :=
  ⟨g.cells.take n ++ List.replicate (n - g.capacity) none, g.size, by
    have := g.size_le
    simp only [capacity, List.length_append, List.length_take, List.length_replicate]
    omega⟩

theorem grown_capacity (g : Growable) (n : Nat) (h : g.size ≤ n) : (g.grown n h).capacity = n := by
  simp only [grown, capacity, List.length_append, List.length_take, List.length_replicate]
  omega

theorem grown_contents (g : Growable) (n : Nat) (h : g.size ≤ n) :
    (g.grown n h).contents = g.contents := by
  have := g.size_le
  simp only [grown, contents]
  rw [List.take_append_of_le_length (by rw [List.length_take]; omega), List.take_take,
    Nat.min_eq_left h]

structure Roomy (g : Growable) (minimum : Nat) where
  block : Growable
  size_eq : block.size = g.size
  contents_eq : block.contents = g.contents
  room : g.size + minimum ≤ block.capacity

def growTo (heap : Heap) (g : Growable) (minimum n : Nat) (h : g.size + minimum ≤ n) :
    Cxx (Roomy g minimum) :=
  if heap.realloc g.capacity n then
    .ok ⟨g.grown n (by omega), rfl, grown_contents _ _ _, by rw [grown_capacity]; exact h⟩
  else .error (.thrown .badAlloc)

def reserve (heap : Heap) (n : Nat) : Cxx Growable := do
  if n ≠ 0 then
    let r ← empty.growTo heap n n (by simp [empty])
    return r.block
  else return empty

def spare (heap : Heap) (G : Growth) (g : Growable) (minimum : Nat) : Cxx (Roomy g minimum) :=
  if h : g.capacity - g.size < minimum then
    g.growTo heap minimum (G.target g.size g.capacity minimum) (G.enough _ _ _)
  else .ok ⟨g, rfl, rfl, by have := g.size_le; unfold capacity at *; omega⟩

def resize (heap : Heap) (G : Growth) (g : Growable) (n : Nat) : Cxx Growable := do
  if h : g.size < n then
    let r ← g.spare heap G (n - g.size)
    return ⟨r.block.cells, n, by have := r.room; unfold capacity at this; omega⟩
  else return ⟨g.cells, n, by have := g.size_le; omega⟩

def fill (g : Growable) (b : Bytes) : Growable :=
  ⟨overwrite g.cells g.size b, g.size, by
    have := g.size_le
    simp only [overwrite, List.length_append, List.length_take, List.length_map]
    omega⟩

theorem fill_capacity {g : Growable} {b : Bytes} (h : g.size + b.length ≤ g.capacity) :
    (g.fill b).capacity = g.capacity := overwrite_length h

def append (heap : Heap) (G : Growth) (g : Growable) (b : Bytes) : Cxx Growable := do
  let r ← g.spare heap G b.length
  return ⟨(r.block.fill b).cells, g.size + b.length, by
    have h := r.room
    rw [← r.size_eq] at h
    have := fill_capacity h
    rw [← r.size_eq]
    unfold capacity at *
    omega⟩

def release (heap : Heap) (g : Growable) : Cxx Cells := do
  -- data_ is null until the first allocation
  if h : g.capacity = 0 then
    let _ ← g.growTo heap 1 1 (by have := g.size_le; unfold capacity at *; omega)
  return g.contents

theorem contents_length (g : Growable) : g.contents.length = g.size := by
  have := g.size_le
  simp only [contents, List.length_take]
  omega

theorem resize_in_place (heap : Heap) (G : Growth) {g : Growable} {n : Nat}
    (h : n ≤ g.capacity) : g.resize heap G n = .ok ⟨g.cells, n, h⟩ := by
  unfold resize spare
  split
  · rw [dif_neg (by omega)]
    rfl
  · rfl

theorem fill_resize {g : Growable} {b : Bytes} (h : g.size + b.length ≤ g.capacity) :
    ∃ g' : Growable, (∀ heap G, (g.fill b).resize heap G (g.size + b.length) = .ok g') ∧
      g'.size = g.size + b.length ∧ g'.contents = g.contents ++ b.map some ∧
      g'.capacity = g.capacity := by
  have hfits : g.size + b.length ≤ (g.fill b).capacity := by
    rw [fill_capacity h]
    exact h
  exact ⟨_, fun heap G => resize_in_place heap G hfits, rfl, overwrite_take h, fill_capacity h⟩

theorem spare_cases (heap : Heap) (G : Growth) (g : Growable) (minimum : Nat) :
    (∃ r, g.spare heap G minimum = .ok r) ∨
    (g.spare heap G minimum = .error (.thrown .badAlloc) ∧ ¬ heap.Grants) := by
  unfold spare growTo
  split
  · split
    · exact .inl ⟨_, rfl⟩
    · rename_i hno
      exact .inr ⟨rfl, fun hg => hno (hg.1 _ _)⟩
  · exact .inl ⟨_, rfl⟩

theorem append_cases (heap : Heap) (G : Growth) (g : Growable) (b : Bytes) :
    (∃ g' : Growable, g.append heap G b = .ok g' ∧ g'.size = g.size + b.length ∧
      g'.contents = g.contents ++ b.map some) ∨
    (g.append heap G b = .error (.thrown .badAlloc) ∧ ¬ heap.Grants) := by
  unfold append
  cases spare_cases heap G g b.length with
  | inl h =>
    obtain ⟨r, h⟩ := h
    left
    rw [h, ok_bind]
    refine ⟨_, rfl, rfl, ?_⟩
    have hroom := r.room
    rw [← r.size_eq] at hroom
    rw [← r.contents_eq]
    simp only [contents, fill, ← r.size_eq]
    exact overwrite_take hroom
  | inr h =>
    obtain ⟨h, hno⟩ := h
    exact .inr ⟨by rw [h, error_bind], hno⟩

theorem reserve_cases (heap : Heap) (n : Nat) :
    (∃ g, reserve heap n = .ok g ∧ g.size = 0 ∧ g.contents = []) ∨
    (reserve heap n = .error (.thrown .badAlloc) ∧ ¬ heap.Grants) := by
  unfold reserve growTo
  split
  · split
    · exact .inl ⟨_, rfl, rfl, by simp [contents, grown, empty]⟩
    · rename_i hno
      exact .inr ⟨rfl, fun hg => hno (hg.1 _ _)⟩
  · exact .inl ⟨_, rfl, rfl, rfl⟩

theorem safe_reserve (heap : Heap) (n : Nat) :
    Safe (fun g => g.size = 0 ∧ g.contents = []) (reserve heap n) := by
  cases reserve_cases heap n with
  | inl h =>
    obtain ⟨g, h, hg⟩ := h
    rw [h]
    exact hg
  | inr h =>
    obtain ⟨h, -⟩ := h
    rw [h]
    trivial

theorem release_cases (heap : Heap) (g : Growable) :
    g.release heap = .ok g.contents ∨
    (g.release heap = .error (.thrown .badAlloc) ∧ ¬ heap.Grants) := by
  unfold release growTo
  split
  · split
    · exact .inl rfl
    · rename_i hno
      exact .inr ⟨rfl, fun hg => hno (hg.1 _ _)⟩
  · exact .inl rfl

theorem release_ok {heap : Heap} (hheap : heap.Grants) (g : Growable) :
    g.release heap = .ok g.contents := by
  cases release_cases heap g with
  | inl h => exact h
  | inr h => exact absurd hheap h.2

theorem release_eq_ok {heap : Heap} {g : Growable} {cells : Cells} (h : g.release heap = .ok cells) :
    cells = g.contents := by
  cases release_cases heap g with
  | inl h' => exact Except.ok.inj (h.symm.trans h')
  | inr h =>
    obtain ⟨h', -⟩ := h
    rw [h'] at h
    cases h

end Growable
end Pyhdiff.Native
