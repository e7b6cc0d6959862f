import Pyhdiff.Native.Mutable
import Pyhdiff.Native.Requests

/-! Spans, streams and blocks in 64-bit arithmetic, against the same over natural
numbers. -/
namespace Pyhdiff.Native
open Streaming

/-- What zstd answers fits the types it answers in. -/
structure Zstd.Words (Z : Zstd) : Prop where
  contentSize : ∀ b, Z.getFrameContentSize b < 2 ^ 64
  header : ∀ {b needed h}, Z.getFrameHeader b = .ok (needed, h) →
    needed < 2 ^ 64 ∧ h.frameContentSize < 2 ^ 64 ∧ h.windowSize < 2 ^ 64
  buffers : Z.cStreamInSize < 2 ^ 64 ∧ Z.cStreamOutSize < 2 ^ 64

namespace Words

def size {α : Type} (b : List α) : UInt64 := UInt64.ofNat b.length

def subspan {α : Type} (b : List α) (pos n : UInt64) : Cxx (List α) :=
  if pos ≤ size b ∧ n ≤ size b - pos then .ok ((b.drop pos.toNat).take n.toNat)
  else .error (.halt .trap)

def first (size n : UInt64) : Cxx Unit := if n ≤ size then .ok () else .error (.halt .trap)

/-- A method of a local object, which is gone where the method throws. -/
def call {σ α : Type} (m : Mutable.Method σ α) (self : σ) : Cxx (α × σ) :=
  match m self with
  | .ok a t => .ok (a, t)
  | .error e _ => .error e

structure StreamInput where
  size : UInt64
  read : (pos n : UInt64) → Except Thrown (Option Bytes)
  read_length : ∀ pos n b, read pos n = .ok (some b) → b.length = n.toNat

def StreamInput.fetch (source : StreamInput) (pos n : UInt64) : Cxx Bytes :=
  match source.read pos n with
  | .error t => .error (.thrown t)
  | .ok none => fail .invalid
  | .ok (some b) => .ok b

def StreamInput.call (s : StreamInput) (pos n : UInt64) : Cxx (Option Bytes) :=
  match s.read pos n with
  | .error t => .error (.thrown t)
  | .ok r => .ok r

def StreamInput.ofNat (s : Native.StreamInput) : StreamInput where
  size := UInt64.ofNat s.size
  read pos n := s.read pos.toNat n.toNat
  read_length pos n := s.read_length pos.toNat n.toNat

structure StreamInput.Models (s : StreamInput) (t : Native.StreamInput) : Prop where
  size : s.size.toNat = t.size
  read : ∀ pos n, s.read pos n = t.read pos.toNat n.toNat

section
variable {a b : UInt64}

theorem toNat_ofNat {n : Nat} (h : n < 2 ^ 64) : (UInt64.ofNat n).toNat = n := by
  rw [UInt64.toNat_ofNat', Nat.mod_eq_of_lt h]

theorem toNat_size {α : Type} {l : List α} (h : l.length < 2 ^ 64) : (size l).toNat = l.length :=
  toNat_ofNat h

theorem toNat_add (h : a.toNat + b.toNat < 2 ^ 64) : (a + b).toNat = a.toNat + b.toNat := by
  rw [UInt64.toNat_add, Nat.mod_eq_of_lt h]

theorem toNat_sub (h : b.toNat ≤ a.toNat) : (a - b).toNat = a.toNat - b.toNat :=
  UInt64.toNat_sub_of_le _ _ (UInt64.le_iff_toNat_le.mpr h)

theorem toNat_min (a b : UInt64) : (min a b).toNat = min a.toNat b.toNat := by
  change (if a ≤ b then a else b).toNat = _
  split
  · rename_i hle
    exact (Nat.min_eq_left (UInt64.le_iff_toNat_le.mp hle)).symm
  · rename_i hgt
    rw [UInt64.le_iff_toNat_le] at hgt
    omega

theorem eq_iff_toNat : a = b ↔ a.toNat = b.toNat := UInt64.toNat_inj.symm

end

theorem subspan_words {α : Type} {l : List α} (h : l.length < 2 ^ 64) (pos n : UInt64) :
    subspan l pos n = Native.subspan l pos.toNat n.toNat := by
  have hcheck : (pos ≤ size l ∧ n ≤ size l - pos) ↔
      (pos.toNat ≤ l.length ∧ n.toNat ≤ l.length - pos.toNat) := by
    simp only [UInt64.le_iff_toNat_le, toNat_size h]
    constructor
    · intro ⟨hpos, hn⟩
      rw [toNat_sub (by rwa [toNat_size h]), toNat_size h] at hn
      exact ⟨hpos, hn⟩
    · intro ⟨hpos, hn⟩
      rw [toNat_sub (by rwa [toNat_size h]), toNat_size h]
      exact ⟨hpos, hn⟩
  unfold subspan Native.subspan
  by_cases hin : pos.toNat ≤ l.length ∧ n.toNat ≤ l.length - pos.toNat
  · rw [if_pos (hcheck.mpr hin), if_pos hin]
  · rw [if_neg (mt hcheck.mp hin), if_neg hin]

theorem first_words (size n : UInt64) : first size n = Native.first size.toNat n.toNat := by
  unfold first Native.first
  simp only [UInt64.le_iff_toNat_le]

namespace StreamInput
variable {s : StreamInput} {t : Native.StreamInput}

theorem ofNat_models (h : t.size < 2 ^ 64) : (ofNat t).Models t := ⟨toNat_ofNat h, fun _ _ => rfl⟩

theorem Models.fetch (h : s.Models t) (pos n : UInt64) :
    s.fetch pos n = t.fetch pos.toNat n.toNat := by
  have hread := h.read pos n
  unfold StreamInput.fetch Native.StreamInput.fetch
  cases hr : t.read pos.toNat n.toNat with
  | error e => simp only [hread, hr]
  | ok r => cases r <;> simp only [hread, hr]

theorem Models.call (h : s.Models t) (pos n : UInt64) : s.call pos n = t.call pos.toNat n.toNat := by
  have hread := h.read pos n
  unfold StreamInput.call Native.StreamInput.call
  cases hr : t.read pos.toNat n.toNat <;> simp only [hread, hr]

end StreamInput

def Input (bytes : Bytes) (hfits : bytes.length < 2 ^ 64) : StreamInput where
  size := size bytes
  read pos n :=
    if pos > size bytes ∨ n > size bytes - pos then .ok none
    else .ok (some ((bytes.drop pos.toNat).take n.toNat))
  read_length pos n b := by
    split
    · simp
    · rename_i hin
      simp only [not_or, gt_iff_lt, UInt64.lt_iff_toNat_lt, toNat_size hfits, Nat.not_lt] at hin
      obtain ⟨hpos, hn⟩ := hin
      rw [toNat_sub (by rwa [toNat_size hfits]), toNat_size hfits] at hn
      rintro ⟨⟩
      simp only [List.length_take, List.length_drop]
      omega

theorem Input_models {bytes : Bytes} (hfits : bytes.length < 2 ^ 64) :
    (Input bytes hfits).Models (Native.Input bytes) := by
  refine ⟨toNat_size hfits, fun pos n => ?_⟩
  have hcheck : (pos > size bytes ∨ n > size bytes - pos) ↔
      (pos.toNat > bytes.length ∨ n.toNat > bytes.length - pos.toNat) := by
    simp only [gt_iff_lt, UInt64.lt_iff_toNat_lt, toNat_size hfits]
    by_cases hpos : bytes.length < pos.toNat
    · exact iff_of_true (.inl hpos) (.inl hpos)
    · rw [toNat_sub (by rw [toNat_size hfits]; omega), toNat_size hfits]
  simp only [Input, Native.Input]
  by_cases hout : pos.toNat > bytes.length ∨ n.toNat > bytes.length - pos.toNat
  · rw [if_pos (hcheck.mpr hout), if_pos hout]
  · rw [if_neg (mt hcheck.mp hout), if_neg hout]

theorem matches_call {σ α τ : Type} {R : σ → τ → Prop} {m : Mutable.Method σ α} {self : σ} {x : Cxx τ}
    (h : Mutable.Matches R (m self) x) : Corresponds (fun p t => R p.2 t) (call m self) x := by
  unfold call
  cases hm : m self with
  | ok a t =>
    rw [hm] at h
    cases x with
    | ok y => exact h
    | error e => exact h.elim
  | error e t =>
    rw [hm] at h
    cases x with
    | ok y => exact h.elim
    | error e' => exact h

end Words

namespace Mutable
open Words

namespace Growable
variable {g : Growable} {m : Native.Growable} {heap : Heap}

theorem Models.size_eq (h : g.Models m) : g.size.toNat = m.size := by
  obtain ⟨hg, rfl⟩ := h
  rfl

theorem Models.capacity_eq (h : g.Models m) : g.capacity.toNat = m.capacity := by
  obtain ⟨hg, rfl⟩ := h
  exact hg.allocated.symm

theorem Models.room_eq (h : g.Models m) : (g.capacity - g.size).toNat = m.capacity - m.size := by
  have hcapacity := h.capacity_eq
  obtain ⟨hg, rfl⟩ := h
  rw [toNat_sub hg.size_le, hcapacity]
  rfl

theorem empty_models : empty.Models Native.Growable.empty := ⟨empty_sound, rfl⟩

theorem spare_models (heap : Heap) (h : g.Models m) (hcapacity : m.capacity ≤ 2 ^ 63) (minimum : UInt64)
    (hfits : m.size + minimum.toNat < 2 ^ 64) :
    Corresponds (fun p r => p.1.toNat = r.block.capacity - r.block.size ∧ p.2.Models r.block)
      (call (spare heap minimum) g) (m.spare heap .source minimum.toNat) := by
  obtain ⟨hg, rfl⟩ := h
  have hlength : (g.model hg).capacity = g.capacity.toNat := hg.allocated
  have hsize := hg.size_le
  change g.size.toNat + minimum.toNat < 2 ^ 64 at hfits
  rw [hlength] at hcapacity
  unfold Native.Growable.spare call
  by_cases hroom : g.size.toNat + minimum.toNat ≤ g.capacity.toNat
  · rw [dif_neg (by rw [hlength]; simp only [model]; omega), spare_enough heap hg hroom]
    exact ⟨Models.room_eq ⟨hg, rfl⟩, hg, rfl⟩
  · rw [dif_pos (by rw [hlength]; simp only [model]; omega)]
    obtain ⟨hgrown, hrefused⟩ := spare_short heap hg (Nat.lt_of_not_le hroom)
    have htarget := target_eq g minimum hfits hcapacity
    have hbig := target_fits g minimum hfits
    unfold Native.Growable.growTo
    by_cases hgranted : heap.realloc g.capacity.toNat
        (max (g.size + minimum) (g.capacity + g.capacity / 2)).toNat = true
    · have hg' := grown_sound (g := g) (Nat.le_trans (Nat.le_add_right _ _) hbig)
      rw [hgrown _ (growTo_granted hgranted) hg',
        if_pos (by rw [hlength]; simpa only [model, ← htarget] using hgranted)]
      have hblock : (g.model hg).grown (Growth.source.target g.size.toNat (g.model hg).capacity minimum.toNat)
          (Nat.le_trans (Nat.le_add_right _ _) (Growth.source.enough _ _ _)) =
            (g.grown (max (g.size + minimum) (g.capacity + g.capacity / 2))).model hg' := by
        simp only [model, grown, Native.Growable.grown, Native.Growable.mk.injEq, and_true]
        rw [htarget]
        change g.data.take (Growth.source.target _ g.data.length _) ++
          List.replicate (Growth.source.target _ g.data.length _ - g.data.length) none = _
        rw [hg.allocated]
      exact ⟨Models.room_eq ⟨hg', hblock⟩, hg', hblock⟩
    · rw [hrefused _ _ (growTo_refused hgranted),
        if_neg (by rw [hlength]; simpa only [model, ← htarget] using hgranted)]
      rfl

theorem resize_words (heap : Heap) (h : g.Models m) (hcapacity : m.capacity ≤ 2 ^ 63) (n : UInt64) :
    Corresponds (fun p t => p.2.Models t) (call (resize heap n) g) (m.resize heap .source n.toNat) := by
  rw [← h.capacity_eq] at hcapacity
  obtain ⟨hg, rfl⟩ := h
  exact matches_call (resize_models heap hg hcapacity n)

theorem reserve_words (heap : Heap) (n : UInt64) :
    Corresponds (fun p t => p.2.Models t) (call (reserve heap n) empty)
      (Native.Growable.reserve heap n.toNat) := by
  have hzero : n ≠ 0 ↔ n.toNat ≠ 0 := not_congr eq_iff_toNat
  unfold reserve Native.Growable.reserve call
  by_cases hn : n ≠ 0
  · rw [if_pos hn, if_pos (hzero.mp hn)]
    unfold Native.Growable.growTo
    by_cases hgranted : heap.realloc Native.Growable.empty.capacity n.toNat = true
    · rw [growTo_granted hgranted, if_pos hgranted]
      exact ⟨grown_sound (Nat.zero_le _), rfl⟩
    · rw [growTo_refused hgranted, if_neg hgranted]
      rfl
  · rw [if_neg hn, if_neg (mt hzero.mpr hn)]
    exact empty_models

theorem append_words (heap : Heap) (h : g.Models m) (hcapacity : m.capacity ≤ 2 ^ 63) {b : Bytes}
    (hfits : m.size + b.length < 2 ^ 64) :
    Corresponds (fun p t => p.2.Models t) (call (append heap b) g) (m.append heap .source b) := by
  have hn : (UInt64.ofNat b.length).toNat = b.length := toNat_ofNat (by omega)
  have hspare := spare_models heap h hcapacity (UInt64.ofNat b.length) (by rwa [hn])
  rw [hn] at hspare
  unfold append Native.Growable.append call at *
  cases hself : spare heap (UInt64.ofNat b.length) g with
  | error e t =>
    rw [bind_throws _ hself]
    rw [hself] at hspare
    cases hmodel : m.spare heap .source b.length with
    | error e' =>
      rw [hmodel] at hspare
      exact hspare
    | ok r =>
      rw [hmodel] at hspare
      exact hspare.elim
  | ok room t =>
    rw [hself] at hspare
    cases hmodel : m.spare heap .source b.length with
    | error e' =>
      rw [hmodel] at hspare
      exact hspare.elim
    | ok r =>
      rw [hmodel] at hspare
      obtain ⟨hroom, ht, hblock⟩ := hspare
      have hsize : t.size.toNat = m.size := by rw [← r.size_eq, hblock]; rfl
      have hcells : r.block.cells = t.data := by rw [hblock]; rfl
      have henough := r.room
      rw [← r.size_eq] at henough
      have hsum : (t.size + UInt64.ofNat b.length).toNat = m.size + b.length := by
        rw [toNat_add (by rw [hsize, hn]; exact hfits), hsize, hn]
      have hfilled : (overwrite t.data t.size.toNat b).length = t.data.length := by
        refine overwrite_length ?_
        rw [hsize, ← r.size_eq, ← hcells]
        exact henough
      rw [bind_returns _ hself, bind_returns _ (hardened_true (by
        rw [UInt64.le_iff_toNat_le, hroom, hn]
        omega))]
      refine ⟨⟨hfilled.trans ht.allocated, ?_⟩, ?_⟩
      · simp only [hsum]
        rw [← ht.allocated, ← hcells, ← r.size_eq]
        exact henough
      · simp only [model, Native.Growable.mk.injEq, hsum, and_true]
        change overwrite r.block.cells r.block.size b = overwrite t.data t.size.toNat b
        rw [hcells, r.size_eq, hsize]

theorem release_words (heap : Heap) (h : g.Models m) :
    Corresponds (fun p t => p.1 = t) (call (release heap) g) (m.release heap) := by
  have hzero : g.capacity = 0 ↔ m.capacity = 0 := by
    rw [eq_iff_toNat, h.capacity_eq]
    rfl
  obtain ⟨hg, rfl⟩ := h
  have hcontents : (g.model hg).contents = g.data.take g.size.toNat := rfl
  unfold release Native.Growable.release call
  rw [get_bind]
  by_cases hnull : g.capacity = 0
  · rw [if_pos hnull, dif_pos (hzero.mp hnull)]
    have hsize := hg.size_le
    have hlength : g.data.length = 0 := by rw [hg.allocated, hnull]; rfl
    have hcapacity : (g.model hg).capacity = g.capacity.toNat := hg.allocated
    rw [hnull] at hsize
    unfold Native.Growable.growTo
    by_cases hgranted : heap.realloc g.capacity.toNat (1 : UInt64).toNat = true
    · rw [bind_returns _ (growTo_granted hgranted), if_pos (by rw [hcapacity]; exact hgranted)]
      have hnone : g.size.toNat = 0 := Nat.le_zero.mp hsize
      change List.take g.size.toNat _ = List.take g.size.toNat _
      rw [hnone, List.take_zero, List.take_zero]
    · rw [bind_throws _ (growTo_refused hgranted), if_neg (by rw [hcapacity]; exact hgranted)]
      rfl
  · rw [if_neg hnull, dif_neg (mt hzero.mpr hnull)]
    rfl

end Growable

def Growable.fill (g : Growable) (b : Bytes) : Growable :=
  { g with data := overwrite g.data g.size.toNat b }

theorem Growable.fill_models {g : Growable} {m : Native.Growable} {b : Bytes} (h : g.Models m)
    (hfits : m.size + b.length ≤ m.capacity) : (g.fill b).Models (m.fill b) := by
  obtain ⟨hg, rfl⟩ := h
  exact ⟨⟨(overwrite_length hfits).trans hg.allocated, hg.size_le⟩, rfl⟩

end Mutable

namespace Growable
variable {heap : Heap} {g g' : Growable} {b : Bytes}

theorem spare_capacity {minimum : Nat} {r : Roomy g minimum} (h : g.spare heap .source minimum = .ok r) :
    r.block.capacity ≤ max g.capacity (growthMax (g.size + minimum)) := by
  have hsize : g.size ≤ g.capacity := g.size_le
  unfold spare growTo at h
  split at h
  · split at h
    · obtain rfl := Except.ok.inj h
      simp only [grown_capacity, Growth.source, growthMax]
      omega
    · cases h
  · obtain rfl := Except.ok.inj h
    exact Nat.le_max_left _ _

theorem reserve_capacity {n : Nat} (h : reserve heap n = .ok g) : g.size = 0 ∧ g.capacity = n := by
  unfold reserve growTo at h
  split at h
  · split at h
    · obtain rfl := Except.ok.inj h
      exact ⟨rfl, grown_capacity empty n (Nat.zero_le n)⟩
    · cases h
  · rename_i hzero
    obtain rfl := Except.ok.inj h
    exact ⟨rfl, (not_not.mp hzero).symm⟩

theorem resize_size {n : Nat} (h : g.resize heap .source n = .ok g') : g'.size = n := by
  unfold resize at h
  split at h
  · obtain ⟨r, -, h⟩ := bind_eq_ok.mp h
    obtain rfl := Except.ok.inj h
    rfl
  · obtain rfl := Except.ok.inj h
    rfl

theorem append_capacity (h : g.append heap .source b = .ok g') :
    g'.size = g.size + b.length ∧ g'.capacity ≤ max g.capacity (growthMax (g.size + b.length)) := by
  obtain ⟨r, hspare, h⟩ := bind_eq_ok.mp h
  obtain rfl := Except.ok.inj h
  have hroom := r.room
  rw [← r.size_eq] at hroom
  refine ⟨rfl, ?_⟩
  change (r.block.fill b).capacity ≤ _
  rw [fill_capacity hroom]
  exact spare_capacity hspare

end Growable
end Pyhdiff.Native
