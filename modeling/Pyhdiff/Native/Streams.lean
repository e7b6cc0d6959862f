import Pyhdiff.Native.Memory

/-! The random-access streams HDiffPatch reads and writes. -/
namespace Pyhdiff.Native

/-- `none` is `hpatch_FALSE`; a read that succeeds fills its whole destination. -/
structure StreamInput where
  size : Nat
  read : (pos n : Nat) → Except Thrown (Option Bytes)
  read_length : ∀ pos n b, read pos n = .ok (some b) → b.length = n

/-- `require(source->read(...))`. -/
def StreamInput.fetch (source : StreamInput) (pos n : Nat) : Cxx Bytes :=
  match source.read pos n with
  | .error t => .error (.thrown t)
  | .ok none => fail .invalid
  | .ok (some b) => .ok b

def Input (bytes : Bytes) : StreamInput where
  size := bytes.length
  read pos n :=
    if pos > bytes.length ∨ n > bytes.length - pos then .ok none
    else .ok (some ((bytes.drop pos).take n))
  read_length pos n b := by
    split
    · simp
    · rintro ⟨⟩
      simp only [List.length_take, List.length_drop]
      omega

/-- The source holds `w` from offset `b` on, and reads inside it succeed. -/
def StreamInput.Serves (source : StreamInput) (b : Nat) (w : Bytes) : Prop :=
  ∀ pos n, pos + n ≤ w.length → source.read (b + pos) n = .ok (some ((w.drop pos).take n))

theorem StreamInput.fetch_safe (source : StreamInput) (pos n : Nat) :
    Safe (fun b => b.length = n) (source.fetch pos n) := by
  unfold fetch
  cases h : source.read pos n with
  | error t => trivial
  | ok r =>
    cases r with
    | none => trivial
    | some b => exact source.read_length pos n b h

theorem StreamInput.Serves.fetch {source : StreamInput} {b : Nat} {w : Bytes}
    (h : source.Serves b w) (pos n : Nat) (hn : pos + n ≤ w.length) :
    source.fetch (b + pos) n = .ok ((w.drop pos).take n) := by
  rw [StreamInput.fetch, h pos n hn]

/-- What reads one after the other, from offset `b` up to `pos`, have returned. -/
inductive StreamInput.Fetched (source : StreamInput) (b : Nat) : (pos : Nat) → Bytes → Prop
  | start : Fetched source b b []
  | piece {pos n : Nat} {w data : Bytes} : Fetched source b pos w → source.fetch pos n = .ok data →
    Fetched source b (pos + n) (w ++ data)

theorem Input_serves (p w t : Bytes) : (Input (p ++ w ++ t)).Serves p.length w := by
  intro pos n hn
  have hdrop : ((p ++ w ++ t).drop (p.length + pos)).take n = (w.drop pos).take n := by
    rw [List.append_assoc, ← List.drop_drop, List.drop_left,
      List.drop_append_of_le_length (by omega), List.take_append_of_le_length]
    rw [List.length_drop]
    omega
  simp only [Input, List.length_append]
  rw [if_neg (by omega), hdrop]

theorem Input_serves_range (file : Bytes) {b e : Nat} (hb : b ≤ e) (he : e ≤ file.length) :
    (Input file).Serves b ((file.drop b).take (e - b)) := by
  have hsplit : file.take b ++ (file.drop b).take (e - b) ++ file.drop e = file := by
    rw [← List.take_add, Nat.add_sub_cancel' hb, List.take_append_drop]
  have hserves := Input_serves (file.take b) ((file.drop b).take (e - b)) (file.drop e)
  rwa [hsplit, List.length_take, Nat.min_eq_left (Nat.le_trans hb he)] at hserves

theorem Input_serves_all (file : Bytes) : (Input file).Serves 0 file := by
  have hserves := Input_serves_range file (Nat.zero_le _) (Nat.le_refl _)
  rwa [List.drop_zero, Nat.sub_zero, List.take_length] at hserves

def Growable.put (g : Growable) (pos : Nat) (b : Bytes) : Growable :=
  ⟨overwrite g.cells pos b, g.size, by
    have := g.size_le
    simp only [overwrite, List.length_append, List.length_take, List.length_map, List.length_drop]
    omega⟩

structure Output where
  limit : Nat
  bytes : Growable

/-- The stream's write either returns `hpatch_TRUE` or throws. -/
def Output.write (heap : Heap) (self : Output) (pos : Nat) (src : Bytes) : Cxx Output := do
  require (pos ≤ self.limit ∧ src.length ≤ self.limit - pos) .limit
  require (pos ≤ self.bytes.size) .invalid
  let finish := pos + src.length
  let bytes ← (if finish > self.bytes.size then self.bytes.resize heap .source finish
    else pure self.bytes)
  let _ ← subspan bytes.contents pos src.length
  return { self with bytes := bytes.put pos src }

theorem Growable.put_contents {g : Growable} {pos : Nat} {b : Bytes} (h : pos + b.length ≤ g.size) :
    (g.put pos b).contents = g.contents.take pos ++ b.map some ++ g.contents.drop (pos + b.length) := by
  have hle := g.size_le
  simp only [contents, put, overwrite]
  rw [List.take_append, List.take_of_length_le (by
    simp only [List.length_append, List.length_take, List.length_map]
    omega), List.take_take, Nat.min_eq_left (by omega), List.drop_take]
  congr 1
  simp only [List.length_append, List.length_take, List.length_map]
  rw [Nat.min_eq_left (by omega)]

theorem Growable.resize_cases (heap : Heap) (G : Growth) {g : Growable} {n : Nat} (h : g.size ≤ n) :
    (∃ g' : Growable, g.resize heap G n = .ok g' ∧ g'.size = n ∧ g'.contents.take g.size = g.contents) ∨
    (g.resize heap G n = .error (.thrown .badAlloc) ∧ ¬ heap.Grants) := by
  unfold resize
  by_cases hlt : g.size < n
  · rw [dif_pos hlt]
    cases spare_cases heap G g (n - g.size) with
    | inl h =>
      obtain ⟨r, hr⟩ := h
      left
      rw [hr, ok_bind]
      refine ⟨_, rfl, rfl, ?_⟩
      rw [contents, List.take_take, Nat.min_eq_left h, ← r.contents_eq, contents, r.size_eq]
    | inr h =>
      obtain ⟨hr, hno⟩ := h
      exact .inr ⟨by rw [hr, error_bind], hno⟩
  · obtain rfl : g.size = n := by omega
    rw [dif_neg hlt]
    exact .inl ⟨g, rfl, rfl, by rw [← contents_length, List.take_length]⟩

theorem Output.write_cases (heap : Heap) (self : Output) (pos : Nat) (src : Bytes)
    (hlimit : pos + src.length ≤ self.limit) (hpos : pos ≤ self.bytes.size) :
    (∃ out : Output, self.write heap pos src = .ok out ∧ out.limit = self.limit ∧
      out.bytes.contents = self.bytes.contents.take pos ++ src.map some ++
        self.bytes.contents.drop (pos + src.length)) ∨
    (self.write heap pos src = .error (.thrown .badAlloc) ∧ ¬ heap.Grants) := by
  have hlen := self.bytes.contents_length
  have hresized : ∀ g : Growable, pos + src.length ≤ g.size →
      subspan g.contents pos src.length = .ok ((g.contents.drop pos).take src.length) := by
    intro g hg
    have := g.contents_length
    exact subspan_ok (by omega) (by omega)
  unfold write
  simp only [require_bind]
  rw [if_pos ⟨by omega, by omega⟩, if_pos hpos]
  by_cases hfinish : pos + src.length > self.bytes.size
  · rw [if_pos hfinish]
    rcases Growable.resize_cases heap .source (Nat.le_of_lt hfinish) with
      ⟨g, hg, hsize, htake⟩ | ⟨h, hno⟩
    · left
      rw [hg, ok_bind, hresized g (Nat.le_of_eq hsize.symm)]
      refine ⟨_, rfl, rfl, ?_⟩
      have hglen := g.contents_length
      rw [Growable.put_contents (Nat.le_of_eq hsize.symm), ← htake, List.take_take,
        Nat.min_eq_left hpos, List.drop_eq_nil_of_le (by omega), List.drop_eq_nil_of_le (by
          rw [List.length_take]
          omega)]
    · exact .inr ⟨by rw [h, error_bind], hno⟩
  · rw [if_neg hfinish, pure_ok, ok_bind, hresized _ (by omega)]
    exact .inl ⟨_, rfl, rfl, Growable.put_contents (by omega)⟩

end Pyhdiff.Native
