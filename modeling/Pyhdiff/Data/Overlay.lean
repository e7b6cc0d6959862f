import Mathlib.Tactic.Common
import Mathlib.Data.List.Induction

/-! Random-access writes to a file: what the last writer of each offset left. -/
namespace Pyhdiff.Overlay
variable {α : Type*}

structure Write (α : Type*) where
  pos : Nat
  data : List α

def Write.stop (w : Write α) : Nat := w.pos + w.data.length

def Write.at (w : Write α) (i : Nat) : Option α :=
  if w.pos ≤ i then w.data[i - w.pos]? else none

/-- What is at an offset after the writes, in order. -/
def overlay (ws : List (Write α)) (i : Nat) : Option α :=
  ws.foldl (fun cell w => (w.at i).or cell) none

def extent (ws : List (Write α)) : Nat := ws.foldl (fun n w => max n w.stop) 0

/-- No write begins past the end of those before it. -/
inductive GapFree : List (Write α) → Prop
  | nil : GapFree []
  | snoc {ws : List (Write α)} {w : Write α} :
      GapFree ws → w.pos ≤ extent ws → GapFree (ws ++ [w])

theorem Write.at_isSome {w : Write α} {i : Nat} :
    (w.at i).isSome ↔ w.pos ≤ i ∧ i < w.stop := by
  unfold Write.at stop
  split
  · rename_i hle
    rw [← Option.ne_none_iff_isSome, ne_eq, List.getElem?_eq_none_iff]
    omega
  · rename_i hlt
    simp [hlt]

theorem Write.at_eq_none {w : Write α} {i : Nat} (h : w.stop ≤ i) : w.at i = none := by
  rw [← Option.not_isSome_iff_eq_none, Write.at_isSome]
  omega

@[simp] theorem overlay_nil (i : Nat) : overlay ([] : List (Write α)) i = none := rfl

@[simp] theorem overlay_snoc (ws : List (Write α)) (w : Write α) (i : Nat) :
    overlay (ws ++ [w]) i = (w.at i).or (overlay ws i) := by
  simp [overlay]

@[simp] theorem extent_nil : extent ([] : List (Write α)) = 0 := rfl

@[simp] theorem extent_snoc (ws : List (Write α)) (w : Write α) :
    extent (ws ++ [w]) = max (extent ws) w.stop := by
  simp [extent]

/-- The last writer of an offset wins. -/
theorem overlay_eq_some {ws : List (Write α)} {i : Nat} {a : α} :
    overlay ws i = some a ↔ ∃ before w after, ws = before ++ w :: after ∧ w.at i = some a ∧
      ∀ v ∈ after, v.at i = none := by
  induction ws using List.reverseRecOn with
  | nil => simp
  | append_singleton ws v ih =>
    rw [overlay_snoc, Option.or_eq_some_iff]
    constructor
    · rintro (hv | ⟨hv, hws⟩)
      · exact ⟨ws, v, [], rfl, hv, by simp⟩
      · obtain ⟨before, w, after, rfl, hw, hafter⟩ := ih.mp hws
        refine ⟨before, w, after ++ [v], by simp, hw, ?_⟩
        intro u hu
        cases List.mem_append.mp hu with
        | inl h => exact hafter u h
        | inr h => exact List.mem_singleton.mp h ▸ hv
    · rintro ⟨before, w, after, he, hw, hafter⟩
      cases after using List.reverseRecOn with
      | nil =>
        obtain ⟨rfl, hvw⟩ := List.append_inj' he rfl
        exact .inl (List.singleton_inj.mp hvw ▸ hw)
      | append_singleton after u =>
        rw [← List.cons_append, ← List.append_assoc] at he
        obtain ⟨hws, hvu⟩ := List.append_inj' he rfl
        obtain rfl := List.singleton_inj.mp hvu
        refine .inr ⟨hafter v (by simp), ih.mpr ⟨before, w, after, hws, hw, ?_⟩⟩
        exact fun x hx => hafter x (List.mem_append_left _ hx)

theorem overlay_eq_none {ws : List (Write α)} {i : Nat} (h : extent ws ≤ i) :
    overlay ws i = none := by
  induction ws using List.reverseRecOn with
  | nil => rfl
  | append_singleton ws w ih =>
    rw [extent_snoc] at h
    rw [overlay_snoc, Write.at_eq_none (by omega), ih (by omega), Option.or_none]

theorem GapFree.written {ws : List (Write α)} (h : GapFree ws) {i : Nat} (hi : i < extent ws) :
    (overlay ws i).isSome := by
  induction h with
  | nil => simp at hi
  | @snoc ws w hws hpos ih =>
    rw [extent_snoc] at hi
    rw [overlay_snoc, Option.isSome_or, Bool.or_eq_true]
    by_cases hin : i < extent ws
    · exact .inr (ih hin)
    · exact .inl (Write.at_isSome.mpr ⟨by omega, by omega⟩)

theorem stop_le_extent {ws : List (Write α)} {w : Write α} (h : w ∈ ws) : w.stop ≤ extent ws := by
  induction ws using List.reverseRecOn with
  | nil => simp at h
  | append_singleton ws v ih =>
    rw [extent_snoc]
    cases List.mem_append.mp h with
    | inl h => exact Nat.le_trans (ih h) (Nat.le_max_left _ _)
    | inr h => exact List.mem_singleton.mp h ▸ Nat.le_max_right _ _

theorem extent_attained {ws : List (Write α)} (h : 0 < extent ws) : ∃ w ∈ ws, w.stop = extent ws := by
  induction ws using List.reverseRecOn with
  | nil => simp at h
  | append_singleton ws v ih =>
    rw [extent_snoc] at h ⊢
    by_cases hv : extent ws ≤ v.stop
    · exact ⟨v, by simp, (Nat.max_eq_right hv).symm⟩
    · obtain ⟨w, hw, hstop⟩ := ih (by omega)
      exact ⟨w, List.mem_append_left _ hw, by omega⟩

end Pyhdiff.Overlay
