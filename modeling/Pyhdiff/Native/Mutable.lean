import Mathlib.Algebra.GroupWithZero.Nat
import Pyhdiff.Data.Overlay
import Pyhdiff.Native.Streams

/-! The growable block and the output stream as objects that their methods change
in place, in 64-bit arithmetic. A method that throws leaves the object as it
was at that moment. -/
namespace Pyhdiff.Native.Mutable
open Overlay

/-- A method of an object: it returns or throws, in either case with the object
as it then is. -/
abbrev Method (σ α : Type) := EStateM Fault σ α

def require {σ : Type} (condition : Prop) [Decidable condition] (status : Status) : Method σ Unit :=
  if condition then pure () else throw (.thrown (.failure status))

def hardened {σ : Type} (condition : Prop) [Decidable condition] : Method σ Unit :=
  if condition then pure () else throw (.halt .trap)

structure Growable where
  data : Cells
  size : UInt64
  capacity : UInt64

namespace Growable

def empty : Growable := ⟨[], 0, 0⟩

/-- `realloc` keeps what the block held. Where it fails the block is as it was. -/
def growTo (heap : Heap) (n : UInt64) : Method Growable Unit := do
  let self ← get
  if heap.realloc self.capacity.toNat n.toNat then
    let data := self.data.take n.toNat ++ List.replicate (n.toNat - self.data.length) none
    set { self with data := data, capacity := n }
  else throw (.thrown .badAlloc)

def reserve (heap : Heap) (n : UInt64) : Method Growable Unit :=
  if n ≠ 0 then growTo heap n else pure ()

def spare (heap : Heap) (minimum : UInt64) : Method Growable UInt64 := do
  let self ← get
  if self.capacity - self.size < minimum then
    growTo heap (max (self.size + minimum) (self.capacity + self.capacity / 2))
  let self ← get
  hardened (self.size ≤ self.capacity)
  return self.capacity - self.size

def resize (heap : Heap) (n : UInt64) : Method Growable Unit := do
  let self ← get
  if n > self.size then
    let _ ← spare heap (n - self.size)
  modify fun self => { self with size := n }

def append (heap : Heap) (b : Bytes) : Method Growable Unit := do
  let n := UInt64.ofNat b.length
  let room ← spare heap n
  hardened (n ≤ room)
  modify fun self => { self with
    data := overwrite self.data self.size.toNat b
    size := self.size + n }

/-- The bytes handed over. `data_` is null until the first allocation. -/
def release (heap : Heap) : Method Growable Cells := do
  let self ← get
  if self.capacity = 0 then growTo heap 1
  let self ← get
  return self.data.take self.size.toNat

structure Sound (g : Growable) : Prop where
  allocated : g.data.length = g.capacity.toNat
  size_le : g.size.toNat ≤ g.capacity.toNat

theorem empty_sound : empty.Sound := ⟨rfl, Nat.le_refl _⟩

def Keeps {α : Type} (m : Method Growable α) (g : Growable) : Prop :=
  match m g with
  | .ok _ t => t.Sound
  | .error _ t => t.Sound

def cell (g : Growable) (i : Nat) : Option UInt8 := g.data[i]?.join

end Growable

structure Output where
  limit : UInt64
  bytes : Growable

namespace Output

def start (limit : UInt64) : Output := ⟨limit, .empty⟩

def onBytes {α : Type} (m : Method Growable α) : Method Output α := fun self =>
  match m self.bytes with
  | .ok a bytes => .ok a { self with bytes := bytes }
  | .error e bytes => .error e { self with bytes := bytes }

def store (pos : UInt64) (src : Bytes) : Method Output Unit := do
  let self ← get
  hardened (pos ≤ self.bytes.size ∧ UInt64.ofNat src.length ≤ self.bytes.size - pos)
  set { self with bytes := { self.bytes with data := overwrite self.bytes.data pos.toNat src } }

def write (heap : Heap) (pos : UInt64) (src : Bytes) : Method Output Unit := do
  let self ← get
  require (pos ≤ self.limit ∧ UInt64.ofNat src.length ≤ self.limit - pos) .limit
  require (pos ≤ self.bytes.size) .invalid
  let finish := pos + UInt64.ofNat src.length
  if finish > self.bytes.size then onBytes (Growable.resize heap finish)
  store pos src

end Output

section
variable {σ α β : Type} {s t : σ}

theorem get_bind (f : σ → Method σ α) : (get >>= f) s = f s s := rfl

theorem bind_returns {m : Method σ α} {a : α} (f : α → Method σ β) (h : m s = .ok a t) :
    (m >>= f) s = f a t := by
  simp only [bind, EStateM.bind, h]

theorem bind_throws {m : Method σ α} {e : Fault} (f : α → Method σ β) (h : m s = .error e t) :
    (m >>= f) s = .error e t := by
  simp only [bind, EStateM.bind, h]

theorem require_true {c : Prop} [Decidable c] (h : c) (status : Status) :
    (require c status : Method σ Unit) s = .ok () s := by
  rw [require, if_pos h]
  rfl

theorem require_false {c : Prop} [Decidable c] (h : ¬ c) (status : Status) :
    (require c status : Method σ Unit) s = .error (.thrown (.failure status)) s := by
  rw [require, if_neg h]
  rfl

theorem hardened_true {c : Prop} [Decidable c] (h : c) :
    (hardened c : Method σ Unit) s = .ok () s := by
  rw [hardened, if_pos h]
  rfl

end

namespace Growable
variable {g : Growable}

theorem cell_overwrite {g : Growable} {pos : Nat} {b : Bytes} (h : pos + b.length ≤ g.data.length)
    (i : Nat) : ({ g with data := overwrite g.data pos b } : Growable).cell i =
      ((⟨pos, b⟩ : Write UInt8).at i).or (g.cell i) := by
  have htake : (g.data.take pos).length = pos := by
    rw [List.length_take]
    omega
  unfold cell overwrite Write.at
  rw [List.append_assoc]
  by_cases hlt : i < pos
  · rw [List.getElem?_append_left (by omega), List.getElem?_take_of_lt hlt, if_neg (by simp; omega)]
    rfl
  · rw [List.getElem?_append_right (by omega), htake, if_pos (by simp; omega)]
    by_cases hin : i - pos < b.length
    · rw [List.getElem?_append_left (by rw [List.length_map]; omega), List.getElem?_map,
        List.getElem?_eq_getElem hin]
      rfl
    · rw [List.getElem?_append_right (by rw [List.length_map]; omega), List.length_map,
        List.getElem?_drop, List.getElem?_eq_none (by omega : b.length ≤ i - pos), Option.none_or]
      congr 2
      omega

def grown (g : Growable) (n : UInt64) : Growable :=
  ⟨g.data.take n.toNat ++ List.replicate (n.toNat - g.data.length) none, g.size, n⟩

theorem growTo_granted {heap : Heap} {n : UInt64}
    (h : heap.realloc g.capacity.toNat n.toNat = true) : growTo heap n g = .ok () (g.grown n) := by
  unfold growTo
  rw [get_bind, if_pos h]
  rfl

theorem growTo_refused {heap : Heap} {n : UInt64}
    (h : ¬ heap.realloc g.capacity.toNat n.toNat = true) :
    growTo heap n g = .error (.thrown .badAlloc) g := by
  unfold growTo
  rw [get_bind, if_neg h]
  rfl

theorem grown_sound {n : UInt64} (hn : g.size.toNat ≤ n.toNat) : (g.grown n).Sound := by
  refine ⟨?_, hn⟩
  simp only [grown, List.length_append, List.length_take, List.length_replicate]
  omega

theorem growTo_cases (heap : Heap) (hg : g.Sound) {n : UInt64} (hn : g.size.toNat ≤ n.toNat) :
    (∃ t : Growable, growTo heap n g = .ok () t ∧ t.Sound ∧ t.size = g.size ∧ t.capacity = n ∧
      ∀ i < g.size.toNat, t.cell i = g.cell i) ∨
    (growTo heap n g = .error (.thrown .badAlloc) g ∧ ¬ heap.Grants) := by
  obtain ⟨hallocated, hsize⟩ := hg
  by_cases hgranted : heap.realloc g.capacity.toNat n.toNat = true
  · refine .inl ⟨_, growTo_granted hgranted, grown_sound hn, rfl, rfl, fun i hi => ?_⟩
    simp only [cell, grown]
    rw [List.getElem?_append_left (by rw [List.length_take]; omega),
      List.getElem?_take_of_lt (by omega)]
  · exact .inr ⟨growTo_refused hgranted, fun hgrants => hgranted (hgrants.1 _ _)⟩

theorem le_max (a b : UInt64) : a.toNat ≤ (max a b).toNat := by
  change a.toNat ≤ (if a ≤ b then b else a).toNat
  split
  · rename_i hle
    exact UInt64.le_iff_toNat_le.mp hle
  · exact Nat.le_refl _

theorem spare_enough (heap : Heap) (hg : g.Sound) {minimum : UInt64}
    (hroom : g.size.toNat + minimum.toNat ≤ g.capacity.toNat) :
    spare heap minimum g = .ok (g.capacity - g.size) g := by
  have hspan : (g.capacity - g.size).toNat = g.capacity.toNat - g.size.toNat :=
    UInt64.toNat_sub_of_le _ _ (UInt64.le_iff_toNat_le.mpr hg.size_le)
  unfold spare
  rw [get_bind, if_neg (by rw [UInt64.lt_iff_toNat_lt, hspan]; omega)]
  exact bind_returns _ (hardened_true (UInt64.le_iff_toNat_le.mpr hg.size_le))

theorem spare_short (heap : Heap) (hg : g.Sound) {minimum : UInt64}
    (hroom : g.capacity.toNat < g.size.toNat + minimum.toNat) :
    let n := max (g.size + minimum) (g.capacity + g.capacity / 2)
    (∀ t, growTo heap n g = .ok () t → t.Sound → spare heap minimum g = .ok (t.capacity - t.size) t) ∧
    ∀ e t, growTo heap n g = .error e t → spare heap minimum g = .error e t := by
  have hspan : (g.capacity - g.size).toNat = g.capacity.toNat - g.size.toNat :=
    UInt64.toNat_sub_of_le _ _ (UInt64.le_iff_toNat_le.mpr hg.size_le)
  have hsize := hg.size_le
  intro n
  unfold spare
  rw [get_bind, if_pos (by rw [UInt64.lt_iff_toNat_lt, hspan]; omega)]
  refine ⟨fun t h ht => ?_, fun e t h => bind_throws _ h⟩
  exact (bind_returns _ h).trans
    (bind_returns _ (hardened_true (UInt64.le_iff_toNat_le.mpr ht.size_le)))

theorem target_fits (g : Growable) (minimum : UInt64) (hfits : g.size.toNat + minimum.toNat < 2 ^ 64) :
    g.size.toNat + minimum.toNat ≤
      (max (g.size + minimum) (g.capacity + g.capacity / 2)).toNat := by
  have hadd : (g.size + minimum).toNat = g.size.toNat + minimum.toNat := by
    rw [UInt64.toNat_add, Nat.mod_eq_of_lt hfits]
  exact hadd ▸ le_max _ _

theorem spare_cases (heap : Heap) (hg : g.Sound) (minimum : UInt64)
    (hfits : g.size.toNat + minimum.toNat < 2 ^ 64) :
    (∃ t : Growable, spare heap minimum g = .ok (t.capacity - t.size) t ∧ t.Sound ∧
      t.size = g.size ∧ g.size.toNat + minimum.toNat ≤ t.capacity.toNat ∧
      ∀ i < g.size.toNat, t.cell i = g.cell i) ∨
    (spare heap minimum g = .error (.thrown .badAlloc) g ∧ ¬ heap.Grants) := by
  by_cases hroom : g.size.toNat + minimum.toNat ≤ g.capacity.toNat
  · exact .inl ⟨g, spare_enough heap hg hroom, hg, rfl, hroom, fun _ _ => rfl⟩
  have htarget := target_fits g minimum hfits
  obtain ⟨hgrown, hrefused⟩ := spare_short heap hg (Nat.lt_of_not_le hroom)
  cases growTo_cases heap hg (Nat.le_trans (Nat.le_add_right _ _) htarget) with
  | inl h =>
    obtain ⟨t, h, ht, hsize, hcapacity, hcells⟩ := h
    exact .inl ⟨t, hgrown t h ht, ht, hsize, hcapacity ▸ htarget, hcells⟩
  | inr h => exact .inr ⟨hrefused _ _ h.1, h.2⟩

theorem resize_cases (heap : Heap) (hg : g.Sound) (n : UInt64) :
    (∃ t : Growable, resize heap n g = .ok () t ∧ t.Sound ∧ t.size = n ∧
      ∀ i < g.size.toNat, t.cell i = g.cell i) ∨
    (resize heap n g = .error (.thrown .badAlloc) g ∧ ¬ heap.Grants) := by
  unfold resize
  rw [get_bind]
  by_cases hgrow : n > g.size
  · rw [if_pos hgrow]
    have hlt : g.size.toNat < n.toNat := UInt64.lt_iff_toNat_lt.mp hgrow
    have hsub : (n - g.size).toNat = n.toNat - g.size.toNat :=
      UInt64.toNat_sub_of_le _ _ (UInt64.le_iff_toNat_le.mpr (Nat.le_of_lt hlt))
    have hn := n.toNat_lt
    cases spare_cases heap hg (n - g.size) (by omega) with
    | inl h =>
      obtain ⟨t, h, ht, hsize, hroom, hcells⟩ := h
      have hroom' : n.toNat ≤ t.capacity.toNat := by omega
      exact .inl ⟨{ t with size := n }, bind_returns _ h, ⟨ht.allocated, hroom'⟩, rfl, hcells⟩
    | inr h => exact .inr ⟨bind_throws _ h.1, h.2⟩
  · rw [if_neg hgrow]
    have hle : n.toNat ≤ g.size.toNat := Nat.le_of_not_lt fun h => hgrow (UInt64.lt_iff_toNat_lt.mpr h)
    have hsize := hg.size_le
    exact .inl ⟨{ g with size := n }, rfl, ⟨hg.allocated, by simp only; omega⟩, rfl, fun _ _ => rfl⟩

theorem append_cases (heap : Heap) (hg : g.Sound) {b : Bytes}
    (hfits : g.size.toNat + b.length < 2 ^ 64) :
    (∃ t : Growable, append heap b g = .ok () t ∧ t.Sound ∧
      t.size.toNat = g.size.toNat + b.length ∧
      (∀ i < g.size.toNat, t.cell i = g.cell i) ∧
      ∀ i < t.size.toNat, g.size.toNat ≤ i → t.cell i = b[i - g.size.toNat]?) ∨
    (append heap b g = .error (.thrown .badAlloc) g ∧ ¬ heap.Grants) := by
  have hn : (UInt64.ofNat b.length).toNat = b.length := by
    rw [UInt64.toNat_ofNat', Nat.mod_eq_of_lt (by omega)]
  unfold append
  cases spare_cases heap hg (UInt64.ofNat b.length) (by omega) with
  | inl h =>
    obtain ⟨t, h, ht, hsize, hroom, hcells⟩ := h
    have hspan : (t.capacity - t.size).toNat = t.capacity.toNat - t.size.toNat :=
      UInt64.toNat_sub_of_le _ _ (UInt64.le_iff_toNat_le.mpr ht.size_le)
    have hadd : (t.size + UInt64.ofNat b.length).toNat = g.size.toNat + b.length := by
      rw [UInt64.toNat_add, hn, hsize, Nat.mod_eq_of_lt hfits]
    have hinside : t.size.toNat + b.length ≤ t.data.length := by
      rw [ht.allocated, hsize]
      omega
    have hcell := cell_overwrite hinside
    left
    refine ⟨{ t with
      data := overwrite t.data t.size.toNat b
      size := t.size + UInt64.ofNat b.length }, ?_, ⟨?_, ?_⟩, hadd, fun i hi => ?_, fun i hi hge => ?_⟩
    · rw [bind_returns _ h, bind_returns _ (hardened_true ?_)]
      · rfl
      · rw [UInt64.le_iff_toNat_le, hspan, hn, hsize]
        omega
    · exact (overwrite_length hinside).trans ht.allocated
    · simp only [hadd]
      omega
    · refine (hcell i).trans ?_
      have hbefore : (⟨t.size.toNat, b⟩ : Write UInt8).at i = none := by
        rw [Write.at, if_neg (by simp only [hsize]; omega)]
      rw [hbefore, Option.none_or, hcells i hi]
    · refine (hcell i).trans ?_
      have hin : i - g.size.toNat < b.length := by
        simp only [hadd] at hi
        omega
      have hat : (⟨t.size.toNat, b⟩ : Write UInt8).at i = some b[i - g.size.toNat] := by
        rw [Write.at, if_pos (by simp only [hsize]; omega), hsize, List.getElem?_eq_getElem hin]
      rw [hat, Option.some_or, List.getElem?_eq_getElem hin]
  | inr h => exact .inr ⟨bind_throws _ h.1, h.2⟩

theorem release_cases (heap : Heap) (hg : g.Sound) :
    (∃ t cells, release heap g = .ok cells t ∧ t.Sound ∧ cells.length = g.size.toNat ∧
      ∀ i < g.size.toNat, cells[i]? = some (g.cell i)) ∨
    (release heap g = .error (.thrown .badAlloc) g ∧ ¬ heap.Grants) := by
  have hhand : ∀ t : Growable, t.Sound → t.size = g.size →
      (∀ i < g.size.toNat, t.cell i = g.cell i) →
      (t.data.take t.size.toNat).length = g.size.toNat ∧
        ∀ i < g.size.toNat, (t.data.take t.size.toNat)[i]? = some (g.cell i) := by
    intro t ht hsize hcells
    have hlen : t.size.toNat ≤ t.data.length := by
      rw [ht.allocated]
      exact ht.size_le
    rw [hsize] at hlen
    rw [hsize]
    refine ⟨by rw [List.length_take]; omega, fun i hi => ?_⟩
    rw [List.getElem?_take_of_lt hi, ← hcells i hi, cell, List.getElem?_eq_getElem (by omega)]
    rfl
  unfold release
  rw [get_bind]
  by_cases hnull : g.capacity = 0
  · rw [if_pos hnull]
    have hsize := hg.size_le
    rw [hnull] at hsize
    cases growTo_cases heap hg (n := 1) (Nat.le_trans hsize (by decide)) with
    | inl h =>
      obtain ⟨t, h, ht, hsize, -, hcells⟩ := h
      exact .inl ⟨t, _, bind_returns _ h, ht, hhand t ht hsize hcells⟩
    | inr h => exact .inr ⟨bind_throws _ h.1, h.2⟩
  · rw [if_neg hnull]
    exact .inl ⟨g, _, rfl, hg, hhand g hg rfl fun _ _ => rfl⟩

theorem keeps_of_ok {α : Type} {m : Method Growable α} {a : α} {t : Growable}
    (h : m g = .ok a t) (ht : t.Sound) : Keeps m g := by
  rw [Keeps, h]
  exact ht

theorem keeps_of_error {α : Type} {m : Method Growable α} {e : Fault} {t : Growable}
    (h : m g = .error e t) (ht : t.Sound) : Keeps m g := by
  rw [Keeps, h]
  exact ht

theorem reserve_keeps (heap : Heap) (n : UInt64) : Keeps (reserve heap n) empty := by
  unfold reserve
  split
  · cases growTo_cases heap empty_sound (n := n) (Nat.zero_le _) with
    | inl h =>
      obtain ⟨t, h, ht, -⟩ := h
      exact keeps_of_ok h ht
    | inr h =>
      obtain ⟨h, -⟩ := h
      exact keeps_of_error h empty_sound
  · exact keeps_of_ok rfl empty_sound

theorem operations_keep (heap : Heap) (hg : g.Sound) :
    (∀ minimum, g.size.toNat + minimum.toNat < 2 ^ 64 → Keeps (spare heap minimum) g) ∧
    (∀ n, Keeps (resize heap n) g) ∧
    (∀ b : Bytes, g.size.toNat + b.length < 2 ^ 64 → Keeps (append heap b) g) ∧
    Keeps (release heap) g := by
  refine ⟨fun minimum hfits => ?_, fun n => ?_, fun b hfits => ?_, ?_⟩
  · cases spare_cases heap hg _ hfits with
    | inl h =>
      obtain ⟨t, h, ht, -⟩ := h
      exact keeps_of_ok h ht
    | inr h =>
      obtain ⟨h, -⟩ := h
      exact keeps_of_error h hg
  · cases resize_cases heap hg n with
    | inl h =>
      obtain ⟨t, h, ht, -⟩ := h
      exact keeps_of_ok h ht
    | inr h =>
      obtain ⟨h, -⟩ := h
      exact keeps_of_error h hg
  · cases append_cases heap hg hfits with
    | inl h =>
      obtain ⟨t, h, ht, -⟩ := h
      exact keeps_of_ok h ht
    | inr h =>
      obtain ⟨h, -⟩ := h
      exact keeps_of_error h hg
  · cases release_cases heap hg with
    | inl h =>
      obtain ⟨t, cells, h, ht, -⟩ := h
      exact keeps_of_ok h ht
    | inr h =>
      obtain ⟨h, -⟩ := h
      exact keeps_of_error h hg

end Growable

namespace Output

theorem onBytes_returns {f : Output} {α : Type} {m : Method Growable α} {a : α} {t : Growable}
    (h : m f.bytes = .ok a t) : onBytes m f = .ok a ⟨f.limit, t⟩ := by
  rw [onBytes, h]

theorem onBytes_throws {f : Output} {α : Type} {m : Method Growable α} {e : Fault} {t : Growable}
    (h : m f.bytes = .error e t) : onBytes m f = .error e ⟨f.limit, t⟩ := by
  rw [onBytes, h]

section
variable {pos : UInt64} {src : Bytes}

/-- The first check of a write is made in 64-bit arithmetic, and does not wrap. -/
theorem limit_check {limit : UInt64} (hsrc : src.length < 2 ^ 64) :
    (pos ≤ limit ∧ UInt64.ofNat src.length ≤ limit - pos) ↔
      pos.toNat + src.length ≤ limit.toNat := by
  have hn : (UInt64.ofNat src.length).toNat = src.length := by
    rw [UInt64.toNat_ofNat', Nat.mod_eq_of_lt hsrc]
  simp only [UInt64.le_iff_toNat_le, hn]
  constructor
  · intro ⟨hpos, hle⟩
    rw [UInt64.toNat_sub_of_le _ _ (UInt64.le_iff_toNat_le.mpr hpos)] at hle
    omega
  · intro hle
    have hpos : pos.toNat ≤ limit.toNat := by omega
    rw [UInt64.toNat_sub_of_le _ _ (UInt64.le_iff_toNat_le.mpr hpos)]
    omega

theorem store_returns (f : Output) (pos : UInt64) (src : Bytes) (hf : f.bytes.Sound)
    (hsrc : pos.toNat + src.length ≤ f.bytes.size.toNat) :
    ∃ t : Growable, store pos src f = .ok () ⟨f.limit, t⟩ ∧ t.Sound ∧ t.size = f.bytes.size ∧
      ∀ i, t.cell i = ((⟨pos.toNat, src⟩ : Write UInt8).at i).or (f.bytes.cell i) := by
  have hsize := f.bytes.size.toNat_lt
  have hinside : pos.toNat + src.length ≤ f.bytes.data.length := by
    have := hf.size_le
    rw [hf.allocated]
    omega
  refine ⟨{ f.bytes with data := overwrite f.bytes.data pos.toNat src }, ?_,
    ⟨(overwrite_length hinside).trans hf.allocated, hf.size_le⟩, rfl, Growable.cell_overwrite hinside⟩
  exact bind_returns _ (hardened_true ((limit_check (by omega)).mpr hsrc))

end

/-- The two checks of a write are those of unbounded arithmetic; then the block
may fail to grow, and else the write is done. A write that fails changes nothing. -/
theorem write_cases (heap : Heap) {f : Output} (hf : f.bytes.Sound) (pos : UInt64) {src : Bytes}
    (hsrc : src.length < 2 ^ 64) :
    (f.limit.toNat < pos.toNat + src.length ∧
      write heap pos src f = .error (.thrown (.failure .limit)) f) ∨
    (pos.toNat + src.length ≤ f.limit.toNat ∧ f.bytes.size.toNat < pos.toNat ∧
      write heap pos src f = .error (.thrown (.failure .invalid)) f) ∨
    (pos.toNat + src.length ≤ f.limit.toNat ∧ pos.toNat ≤ f.bytes.size.toNat ∧
      ((write heap pos src f = .error (.thrown .badAlloc) f ∧ ¬ heap.Grants) ∨
      ∃ t : Growable, write heap pos src f = .ok () ⟨f.limit, t⟩ ∧ t.Sound ∧
        t.size.toNat = max f.bytes.size.toNat (pos.toNat + src.length) ∧
        (∀ i < f.bytes.size.toNat,
          t.cell i = ((⟨pos.toNat, src⟩ : Write UInt8).at i).or (f.bytes.cell i)) ∧
        ∀ i < t.size.toNat, f.bytes.size.toNat ≤ i →
          t.cell i = (⟨pos.toNat, src⟩ : Write UInt8).at i)) := by
  have hlimits := f.limit.toNat_lt
  unfold write
  rw [get_bind]
  by_cases hlimit : pos.toNat + src.length ≤ f.limit.toNat
  swap
  · exact .inl ⟨Nat.lt_of_not_le hlimit,
      bind_throws _ (require_false (fun h => hlimit ((limit_check hsrc).mp h)) .limit)⟩
  right
  rw [bind_returns _ (require_true ((limit_check hsrc).mpr hlimit) .limit)]
  by_cases hgap : pos.toNat ≤ f.bytes.size.toNat
  swap
  · exact .inl ⟨hlimit, Nat.lt_of_not_le hgap,
      bind_throws _ (require_false (fun h => hgap (UInt64.le_iff_toNat_le.mp h)) .invalid)⟩
  refine .inr ⟨hlimit, hgap, ?_⟩
  rw [bind_returns _ (require_true (UInt64.le_iff_toNat_le.mpr hgap) .invalid)]
  have hfinish : (pos + UInt64.ofNat src.length).toNat = pos.toNat + src.length := by
    rw [UInt64.toNat_add, UInt64.toNat_ofNat', Nat.mod_eq_of_lt hsrc, Nat.mod_eq_of_lt (by omega)]
  by_cases hgrow : f.bytes.size < pos + UInt64.ofNat src.length
  · have hlt := UInt64.lt_iff_toNat_lt.mp hgrow
    rw [hfinish] at hlt
    simp only [gt_iff_lt, if_pos hgrow]
    cases Growable.resize_cases heap hf (pos + UInt64.ofNat src.length) with
    | inl h =>
      obtain ⟨g, h, hg, hsize, hcells⟩ := h
      obtain ⟨t, hstore, ht, htsize, htcells⟩ := store_returns ⟨f.limit, g⟩ pos src hg
        (Nat.le_of_eq (by rw [hsize, hfinish]))
      right
      refine ⟨t, (bind_returns _ (onBytes_returns h)).trans hstore, ht, ?_, fun i hi => ?_,
        fun i hi hge => ?_⟩
      · rw [htsize, hsize, hfinish]
        omega
      · rw [htcells, hcells i hi]
      · rw [htsize, hsize, hfinish] at hi
        obtain ⟨a, ha⟩ := Option.isSome_iff_exists.mp
          ((Write.at_isSome (w := ⟨pos.toNat, src⟩)).mpr ⟨by simp only; omega, hi⟩)
        rw [htcells, ha, Option.some_or]
    | inr h => exact .inl ⟨bind_throws _ (onBytes_throws h.1), h.2⟩
  · have hle : pos.toNat + src.length ≤ f.bytes.size.toNat := by
      rw [UInt64.lt_iff_toNat_lt, hfinish] at hgrow
      omega
    simp only [gt_iff_lt, if_neg hgrow]
    obtain ⟨t, hstore, ht, htsize, htcells⟩ := store_returns f pos src hf hle
    right
    refine ⟨t, hstore, ht, ?_, fun i _ => htcells i, fun i hi hge => ?_⟩
    · rw [htsize]
      omega
    · rw [htsize] at hi
      exact absurd hge (Nat.not_le_of_lt hi)

/-- The stream holds what the writes it has taken leave, and nothing else. -/
structure Holds (f : Output) (limit : UInt64) (done : List (Write UInt8)) : Prop where
  limit_eq : f.limit = limit
  sound : f.bytes.Sound
  bound : f.bytes.size.toNat ≤ limit.toNat
  gapFree : GapFree done
  extent : f.bytes.size.toNat = extent done
  cells : ∀ i < f.bytes.size.toNat, f.bytes.cell i = overlay done i

theorem start_holds (limit : UInt64) : (start limit).Holds limit [] :=
  ⟨rfl, Growable.empty_sound, Nat.zero_le _, .nil, rfl, fun _ hi => absurd hi (Nat.not_lt_zero _)⟩

/-- A write to the stream, and what its allocations meet. -/
structure Request where
  heap : Heap
  pos : UInt64
  data : Bytes
  fits : data.length < 2 ^ 64

def Request.run (r : Request) (f : Output) : EStateM.Result Fault Output Unit :=
  f |> write r.heap r.pos r.data

def Request.asWrite (r : Request) : Write UInt8 := ⟨r.pos.toNat, r.data⟩

theorem Request.run_outcome (r : Request) {f : Output} (hf : f.bytes.Sound) :
    (r.run f = .error (.thrown (.failure .limit)) f ↔ f.limit.toNat < r.pos.toNat + r.data.length) ∧
    (r.run f = .error (.thrown (.failure .invalid)) f ↔
      r.pos.toNat + r.data.length ≤ f.limit.toNat ∧ f.bytes.size.toNat < r.pos.toNat) ∧
    (r.pos.toNat + r.data.length ≤ f.limit.toNat → r.pos.toNat ≤ f.bytes.size.toNat →
      (r.run f = .error (.thrown .badAlloc) f ∧ ¬ r.heap.Grants) ∨ ∃ t, r.run f = .ok () t) ∧
    ∀ e t, r.run f = .error e t → t = f := by
  have hrun : r.run f = write r.heap r.pos r.data f := rfl
  rw [hrun]
  rcases write_cases r.heap hf r.pos r.fits with ⟨hpast, h⟩ | ⟨hfits, hgap, h⟩ |
    ⟨hfits, hinside, ⟨h, hno⟩ | ⟨t, h, -⟩⟩
  · rw [h]
    refine ⟨iff_of_true rfl hpast, iff_of_false (by simp) (by omega), fun _ => by omega, ?_⟩
    intro e t he
    cases he
    rfl
  · rw [h]
    refine ⟨iff_of_false (by simp) (by omega), iff_of_true rfl ⟨hfits, hgap⟩, fun _ _ => by omega, ?_⟩
    intro e t he
    cases he
    rfl
  · rw [h]
    refine ⟨iff_of_false (by simp) (by omega), iff_of_false (by simp) (by omega),
      fun _ _ => .inl ⟨rfl, hno⟩, ?_⟩
    intro e t he
    cases he
    rfl
  · rw [h]
    exact ⟨iff_of_false (by simp) (by omega), iff_of_false (by simp) (by omega),
      fun _ _ => .inr ⟨_, rfl⟩, fun e t he => by cases he⟩

def step (x : Output × List (Write UInt8)) (r : Request) : Output × List (Write UInt8) :=
  match r.run x.1 with
  | .ok _ f => (f, x.2 ++ [r.asWrite])
  | .error _ f => (f, x.2)

def writes (limit : UInt64) (rs : List Request) : Output × List (Write UInt8) :=
  rs.foldl step (start limit, [])

def Request.leaves (r : Request) (f : Output) : Output :=
  match r.run f with
  | .ok _ t => t
  | .error _ t => t

def Request.returns (r : Request) (f : Output) : Bool :=
  match r.run f with
  | .ok _ _ => true
  | .error _ _ => false

/-- The writes taken, each after what the requests before it leave. -/
def taken (f : Output) (rs : List Request) : List (Write UInt8) :=
  ((rs.zip (rs.scanl (fun f r => r.leaves f) f)).filter fun x => x.1.returns x.2).map (·.1.asWrite)

theorem step_eq (x : Output × List (Write UInt8)) (r : Request) :
    step x r = (r.leaves x.1, x.2 ++ if r.returns x.1 then [r.asWrite] else []) := by
  unfold step Request.leaves Request.returns
  cases r.run x.1 with
  | ok u t => rfl
  | error e t => simp

theorem writes_eq (limit : UInt64) (rs : List Request) : writes limit rs =
    (rs.foldl (fun f r => r.leaves f) (start limit), taken (start limit) rs) := by
  have hfrom (f : Output) (ws : List (Write UInt8)) :
      rs.foldl step (f, ws) = (rs.foldl (fun f r => r.leaves f) f, ws ++ taken f rs) := by
    induction rs generalizing f ws with
    | nil => simp [taken]
    | cons r rs ih =>
      rw [List.foldl_cons, step_eq, ih]
      unfold taken
      rw [List.scanl_cons, List.zip_cons_cons, List.filter_cons]
      cases r.returns f <;> simp
  rw [writes, hfrom, List.nil_append]

theorem step_holds {limit : UInt64} {x : Output × List (Write UInt8)} (hx : x.1.Holds limit x.2)
    (r : Request) : (step x r).1.Holds limit (step x r).2 := by
  obtain ⟨rfl, hsound, hbound, hgapFree, hextent, hcells⟩ := hx
  have hfailed : ∀ {e : Fault}, r.run x.1 = .error e x.1 → (step x r).1.Holds x.1.limit (step x r).2 := by
    intro e h
    rw [step, h]
    exact ⟨rfl, hsound, hbound, hgapFree, hextent, hcells⟩
  rcases write_cases r.heap hsound r.pos r.fits with ⟨-, h⟩ | ⟨-, -, h⟩ |
    ⟨hlimit, hpos, ⟨h, -⟩ | ⟨t, h, ht, hsize, hold, hnew⟩⟩
  · exact hfailed h
  · exact hfailed h
  · exact hfailed h
  rw [step, Request.run, h]
  refine ⟨rfl, ht, by simp only; omega, .snoc hgapFree (hextent ▸ hpos), ?_, fun i hi => ?_⟩
  · rw [extent_snoc, ← hextent]
    exact hsize
  · rw [overlay_snoc]
    by_cases hin : i < x.1.bytes.size.toNat
    · exact (hold i hin).trans (by rw [hcells i hin]; rfl)
    · have hge := Nat.le_of_not_lt hin
      rw [overlay_eq_none (hextent ▸ hge), Option.or_none]
      exact hnew i hi hge

theorem writes_holds (limit : UInt64) (rs : List Request) :
    (writes limit rs).1.Holds limit (writes limit rs).2 := by
  induction rs using List.reverseRecOn with
  | nil => exact start_holds limit
  | append_singleton rs r ih =>
    rw [writes, List.foldl_append]
    exact step_holds ih r

end Output

/-- The block without its capacity member, which is the length of its storage. -/
def Growable.model (g : Growable) (hg : g.Sound) : Native.Growable :=
  ⟨g.data, g.size.toNat, hg.allocated ▸ hg.size_le⟩

def Output.model (f : Output) (hf : f.bytes.Sound) : Native.Output :=
  ⟨f.limit.toNat, f.bytes.model hf⟩

def Matches {σ α τ : Type} (R : σ → τ → Prop) (r : EStateM.Result Fault σ α) (x : Cxx τ) : Prop :=
  match r, x with
  | .ok _ t, .ok y => R t y
  | .error e _, .error e' => e = e'
  | _, _ => False

def Growable.Models (g : Growable) (m : Native.Growable) : Prop := ∃ hg : g.Sound, m = g.model hg

def Output.Models (f : Output) (m : Native.Output) : Prop := ∃ hf : f.bytes.Sound, m = f.model hf

namespace Growable
variable {g : Growable}

theorem target_eq (g : Growable) (minimum : UInt64) (hfits : g.size.toNat + minimum.toNat < 2 ^ 64)
    (hcapacity : g.capacity.toNat ≤ 2 ^ 63) :
    (max (g.size + minimum) (g.capacity + g.capacity / 2)).toNat =
      Growth.source.target g.size.toNat g.capacity.toNat minimum.toNat := by
  have hsize : (g.size + minimum).toNat = g.size.toNat + minimum.toNat := by
    rw [UInt64.toNat_add, Nat.mod_eq_of_lt hfits]
  have hgrow : (g.capacity + g.capacity / 2).toNat = g.capacity.toNat + g.capacity.toNat / 2 := by
    rw [UInt64.toNat_add, UInt64.toNat_div, Nat.mod_eq_of_lt]
    · rfl
    · change g.capacity.toNat + g.capacity.toNat / 2 < _
      omega
  change (if g.size + minimum ≤ g.capacity + g.capacity / 2 then _ else _ : UInt64).toNat = max _ _
  rw [← hsize, ← hgrow]
  split
  · rename_i hle
    exact (Nat.max_eq_right (UInt64.le_iff_toNat_le.mp hle)).symm
  · rename_i hgt
    have := UInt64.le_iff_toNat_le.not.mp hgt
    omega

theorem resize_models (heap : Heap) (hg : g.Sound) (hcapacity : g.capacity.toNat ≤ 2 ^ 63)
    (n : UInt64) :
    Matches Models (resize heap n g) ((g.model hg).resize heap .source n.toNat) := by
  have hlength : (g.model hg).capacity = g.capacity.toNat := hg.allocated
  unfold resize Native.Growable.resize
  rw [get_bind]
  by_cases hgrow : n > g.size
  swap
  · have hle : ¬ (g.model hg).size < n.toNat := fun h => hgrow (UInt64.lt_iff_toNat_lt.mpr h)
    have hsize := hg.size_le
    have hle' : n.toNat ≤ g.size.toNat := Nat.le_of_not_lt hle
    rw [if_neg hgrow, dif_neg hle]
    exact ⟨⟨hg.allocated, by simp only; omega⟩, rfl⟩
  have hlt : g.size.toNat < n.toNat := UInt64.lt_iff_toNat_lt.mp hgrow
  have hsub : (n - g.size).toNat = n.toNat - g.size.toNat :=
    UInt64.toNat_sub_of_le _ _ (UInt64.le_iff_toNat_le.mpr (Nat.le_of_lt hlt))
  have hn := n.toNat_lt
  rw [if_pos hgrow, dif_pos (show (g.model hg).size < n.toNat from hlt)]
  unfold Native.Growable.spare
  by_cases hroom : g.size.toNat + (n - g.size).toNat ≤ g.capacity.toNat
  · rw [dif_neg (by rw [hlength]; simp only [model]; omega),
      bind_returns _ (spare_enough heap hg hroom)]
    exact ⟨⟨hg.allocated, by simp only; omega⟩, rfl⟩
  · rw [dif_pos (by rw [hlength]; simp only [model]; omega)]
    obtain ⟨hgrown, hrefused⟩ := spare_short heap hg (Nat.lt_of_not_le hroom)
    have htarget := target_eq g (n - g.size) (by omega) hcapacity
    have hfits := target_fits g (n - g.size) (by omega)
    unfold Native.Growable.growTo
    by_cases hgranted : heap.realloc g.capacity.toNat
        (max (g.size + (n - g.size)) (g.capacity + g.capacity / 2)).toNat = true
    · have hg' := grown_sound (g := g) (Nat.le_trans (Nat.le_add_right _ _) hfits)
      rw [bind_returns _ (hgrown _ (growTo_granted hgranted) hg')]
      rw [if_pos (by rw [hlength]; simpa only [model, ← hsub, ← htarget] using hgranted)]
      refine ⟨⟨hg'.allocated, by simp only [grown]; omega⟩, ?_⟩
      simp only [model, grown, Native.Growable.mk.injEq, and_true]
      rw [htarget, hsub]
      change g.data.take (Growth.source.target _ g.data.length _) ++
        List.replicate (Growth.source.target _ g.data.length _ - g.data.length) none = _
      rw [hg.allocated]
    · rw [bind_throws _ (hrefused _ _ (growTo_refused hgranted))]
      rw [if_neg (by rw [hlength]; simpa only [model, ← hsub, ← htarget] using hgranted)]
      rfl

end Growable

theorem Output.store_models {f : Output} (hf : f.bytes.Sound) {pos : UInt64} {src : Bytes}
    (hsrc : pos.toNat + src.length ≤ f.bytes.size.toNat) :
    Matches Output.Models (store pos src f) (do
      let _ ← subspan (f.model hf).bytes.contents pos.toNat src.length
      return { f.model hf with bytes := (f.model hf).bytes.put pos.toNat src }) := by
  have hsize := f.bytes.size.toNat_lt
  have hinside : pos.toNat + src.length ≤ f.bytes.data.length := by
    have := hf.size_le
    rw [hf.allocated]
    omega
  have hlen : (f.model hf).bytes.contents.length = f.bytes.size.toNat :=
    Native.Growable.contents_length _
  have hstored : (overwrite f.bytes.data pos.toNat src).length = f.bytes.capacity.toNat :=
    (overwrite_length hinside).trans hf.allocated
  rw [subspan_ok (by omega) (by omega), ok_bind]
  have hreturns : store pos src f = .ok () { f with
      bytes := { f.bytes with data := overwrite f.bytes.data pos.toNat src } } :=
    bind_returns _ (hardened_true ((limit_check (by omega)).mpr hsrc))
  rw [hreturns]
  exact ⟨⟨hstored, hf.size_le⟩, rfl⟩

/-- The object refines the stream of the functional model, call by call. -/
theorem Output.write_models (heap : Heap) {f : Output} (hf : f.bytes.Sound)
    (hcapacity : f.bytes.capacity.toNat ≤ 2 ^ 63) (pos : UInt64) {src : Bytes}
    (hsrc : src.length < 2 ^ 64) :
    Matches Output.Models (write heap pos src f) ((f.model hf).write heap pos.toNat src) := by
  have hlimits := f.limit.toNat_lt
  have hcheck : (pos ≤ f.limit ∧ UInt64.ofNat src.length ≤ f.limit - pos) ↔
      (pos.toNat ≤ (f.model hf).limit ∧ src.length ≤ (f.model hf).limit - pos.toNat) := by
    rw [limit_check hsrc]
    simp only [Output.model]
    omega
  unfold write Native.Output.write
  rw [get_bind]
  by_cases hlimit : pos ≤ f.limit ∧ UInt64.ofNat src.length ≤ f.limit - pos
  swap
  · rw [bind_throws _ (require_false hlimit .limit), require_bind, if_neg (mt hcheck.mpr hlimit)]
    rfl
  rw [bind_returns _ (require_true hlimit .limit), require_bind, if_pos (hcheck.mp hlimit)]
  by_cases hgap : pos ≤ f.bytes.size
  swap
  · rw [bind_throws _ (require_false hgap .invalid), require_bind,
      if_neg (show ¬ pos.toNat ≤ (f.model hf).bytes.size from mt UInt64.le_iff_toNat_le.mpr hgap)]
    rfl
  rw [bind_returns _ (require_true hgap .invalid), require_bind,
    if_pos (show pos.toNat ≤ (f.model hf).bytes.size from UInt64.le_iff_toNat_le.mp hgap)]
  rw [limit_check hsrc] at hlimit
  have hfinish : (pos + UInt64.ofNat src.length).toNat = pos.toNat + src.length := by
    rw [UInt64.toNat_add, UInt64.toNat_ofNat', Nat.mod_eq_of_lt hsrc, Nat.mod_eq_of_lt (by omega)]
  by_cases hgrow : f.bytes.size < pos + UInt64.ofNat src.length
  · have hlt := UInt64.lt_iff_toNat_lt.mp hgrow
    rw [hfinish] at hlt
    have hresize : Matches Growable.Models
        (Growable.resize heap (pos + UInt64.ofNat src.length) f.bytes)
        ((f.model hf).bytes.resize heap .source (pos.toNat + src.length)) :=
      hfinish ▸ Growable.resize_models heap hf hcapacity (pos + UInt64.ofNat src.length)
    simp only [gt_iff_lt, if_pos hgrow, if_pos (show (f.model hf).bytes.size < _ from hlt)]
    generalize (f.model hf).bytes.resize heap .source (pos.toNat + src.length) = x at hresize ⊢
    cases Growable.resize_cases heap hf (pos + UInt64.ofNat src.length) with
    | inl h =>
      obtain ⟨t, h, ht, hsize, -⟩ := h
      rw [h] at hresize
      rw [bind_returns _ (onBytes_returns h)]
      cases x with
      | error e => exact hresize.elim
      | ok y =>
        obtain ⟨-, rfl⟩ := hresize
        exact store_models (f := ⟨f.limit, t⟩) ht (Nat.le_of_eq (by rw [hsize, hfinish]))
    | inr h =>
      rw [h.1] at hresize
      rw [bind_throws _ (onBytes_throws h.1)]
      cases x with
      | error e => exact hresize
      | ok y => exact hresize.elim
  · have hle : pos.toNat + src.length ≤ f.bytes.size.toNat := by
      rw [UInt64.lt_iff_toNat_lt, hfinish] at hgrow
      omega
    simp only [gt_iff_lt, if_neg hgrow,
      if_neg (show ¬ (f.model hf).bytes.size < pos.toNat + src.length from Nat.not_lt.mpr hle)]
    exact store_models hf hle

theorem resize_capacity {heap : Heap} {g g' : Native.Growable} {n : Nat}
    (h : g.resize heap .source n = .ok g') : g'.capacity ≤ max g.capacity (n + n / 2) := by
  have hsize := g.size_le
  unfold Native.Growable.resize at h
  split at h
  swap
  · obtain rfl := Except.ok.inj h
    exact Nat.le_max_left _ _
  rename_i hlt
  obtain ⟨r, hspare, h⟩ := bind_eq_ok.mp h
  obtain rfl := Except.ok.inj h
  change r.block.capacity ≤ _
  unfold Native.Growable.spare at hspare
  split at hspare
  · rename_i hshort
    unfold Native.Growable.growTo at hspare
    split at hspare
    · obtain rfl := Except.ok.inj hspare
      rw [Native.Growable.grown_capacity]
      simp only [Growth.source]
      unfold Native.Growable.capacity at *
      omega
    · cases hspare
  · obtain rfl := Except.ok.inj hspare
    exact Nat.le_max_left _ _

theorem write_capacity {heap : Heap} {f f' : Native.Output} {pos : Nat} {src : Bytes}
    (h : f.write heap pos src = .ok f') :
    f'.bytes.capacity ≤ max f.bytes.capacity (f.limit + f.limit / 2) := by
  simp only [Native.Output.write, bind_eq_ok, require_eq_ok] at h
  obtain ⟨-, hlimit, -, hpos, bytes, hbytes, span, hspan, h⟩ := h
  obtain rfl := Except.ok.inj h
  have hinside : pos + src.length ≤ bytes.cells.length := by
    have hsize := bytes.size_le
    unfold subspan at hspan
    split at hspan
    · rename_i hin
      rw [Native.Growable.contents_length] at hin
      omega
    · cases hspan
  change (overwrite bytes.cells pos src).length ≤ _
  rw [overwrite_length hinside]
  split at hbytes
  · have hgrown : bytes.cells.length ≤ _ := resize_capacity hbytes
    omega
  · obtain rfl := Except.ok.inj hbytes
    exact Nat.le_max_left _ _

def attempt (f : Native.Output) (r : Output.Request) : Native.Output :=
  match f.write r.heap r.pos.toNat r.data with
  | .ok f' => f'
  | .error _ => f

namespace Output

theorem step_models {limit : UInt64} (hlimit : limit.toNat ≤ 2 ^ 62)
    {x : Output × List (Write UInt8)} (hx : x.1.Holds limit x.2)
    (hcapacity : x.1.bytes.capacity.toNat ≤ 2 ^ 63) {m : Native.Output} (hm : x.1.Models m)
    (r : Request) :
    (step x r).1.Models (attempt m r) ∧ (step x r).1.bytes.capacity.toNat ≤ 2 ^ 63 := by
  obtain ⟨hf, rfl⟩ := hm
  have hmatches : Matches Models (r.run x.1) ((x.1.model hf).write r.heap r.pos.toNat r.data) :=
    write_models r.heap hf hcapacity r.pos r.fits
  unfold step attempt
  cases hr : r.run x.1 with
  | ok u t =>
    rw [hr] at hmatches
    cases hw : (x.1.model hf).write r.heap r.pos.toNat r.data with
    | ok y =>
      rw [hw] at hmatches
      refine ⟨hmatches, ?_⟩
      have hgrown := write_capacity hw
      obtain ⟨ht, rfl⟩ := hmatches
      have hbefore : (x.1.model hf).bytes.capacity = x.1.bytes.capacity.toNat := hf.allocated
      have hafter : (t.model ht).bytes.capacity = t.bytes.capacity.toNat := ht.allocated
      have hlimits : (x.1.model hf).limit = limit.toNat := congrArg UInt64.toNat hx.limit_eq
      rw [hbefore, hafter, hlimits] at hgrown
      simp only
      omega
    | error e =>
      rw [hw] at hmatches
      exact hmatches.elim
  | error e t =>
    obtain rfl := (r.run_outcome hf).2.2.2 e t hr
    rw [hr] at hmatches
    cases hw : (x.1.model hf).write r.heap r.pos.toNat r.data with
    | ok y =>
      rw [hw] at hmatches
      exact hmatches.elim
    | error e' => exact ⟨⟨hf, rfl⟩, hcapacity⟩

theorem writes_models {limit : UInt64} (hlimit : limit.toNat ≤ 2 ^ 62) (rs : List Request) :
    (writes limit rs).1.Models (rs.foldl attempt ⟨limit.toNat, .empty⟩) ∧
      (writes limit rs).1.bytes.capacity.toNat ≤ 2 ^ 63 := by
  induction rs using List.reverseRecOn with
  | nil => exact ⟨⟨Growable.empty_sound, rfl⟩, Nat.zero_le _⟩
  | append_singleton rs r ih =>
    have hstep := step_models hlimit (writes_holds limit rs) ih.2 ih.1 r
    simpa only [writes, List.foldl_append, List.foldl_cons, List.foldl_nil] using hstep

end Output
end Pyhdiff.Native.Mutable
