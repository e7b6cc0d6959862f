import Mathlib.Tactic.Common
import Mathlib.Data.List.Basic

/-! Self-delimiting frame formats: which strings are one complete frame, and
the concatenations of such frames. -/
namespace Pyhdiff.Streaming
variable {α : Type*}

/-- What a complete frame says and carries. A frame that records its content
size records the right one; a skippable frame carries nothing. -/
structure Frame (α : Type*) where
  skippable : Bool
  window : Nat
  recorded : Option Nat
  content : List α
  recorded_eq : ∀ n ∈ recorded, n = content.length
  skip : skippable = true → content = [] ∧ window = 0

/-- `frame p s` reads `s`, all of it, as one complete frame whose content may
refer back to the history `p`. No frame is empty or continues another. -/
structure Format (α : Type*) where
  frame : List α → List α → Option (Frame α)
  nonempty : ∀ p, frame p [] = none
  prefixFree : ∀ {p s t f g}, frame p s = some f → frame p (s ++ t) = some g → t = []

namespace Format
variable (F : Format α)

theorem ne_nil {p s : List α} {f : Frame α} (h : F.frame p s = some f) : s ≠ [] := by
  intro hs
  rw [hs, F.nonempty] at h
  cases h

theorem unique {p s t x y : List α} {f g : Frame α} (hf : F.frame p s = some f)
    (hg : F.frame p t = some g) (he : s ++ x = t ++ y) : s = t ∧ f = g ∧ x = y := by
  have hst : s = t := by
    cases List.append_eq_append_iff.mp he with
    | inl h =>
      obtain ⟨u, ht, -⟩ := h
      rw [ht] at hg
      rw [ht, F.prefixFree hf hg, List.append_nil]
    | inr h =>
      obtain ⟨u, hs, -⟩ := h
      rw [hs] at hf
      rw [hs, F.prefixFree hg hf, List.append_nil]
  subst hst
  refine ⟨rfl, ?_, List.append_cancel_left he⟩
  rw [hf] at hg
  exact Option.some.inj hg

theorem length_eq {p s r : List α} {f g : Frame α} {k : Nat} {c : List α}
    (hf : F.frame p (c ++ s) = some f) (hg : F.frame p (c ++ r.take k) = some g)
    (hk : k ≤ r.length) (hr : r <+: s ∨ s <+: r) : k = s.length := by
  have he : c ++ s = c ++ r.take k := by
    cases hr with
    | inl h =>
      obtain ⟨u, rfl⟩ := h
      refine (F.unique (y := r.drop k ++ u) hf hg (x := []) ?_).1
      simp only [List.append_nil, List.append_assoc]
      rw [← List.append_assoc (r.take k), List.take_append_drop]
    | inr h =>
      obtain ⟨u, rfl⟩ := h
      refine (F.unique (x := u) (y := (s ++ u).drop k) hf hg ?_).1
      rw [List.append_assoc, List.append_assoc, List.take_append_drop]
  have hl := congrArg List.length (List.append_cancel_left he)
  rw [List.length_take] at hl
  omega

theorem inside {p c rest input : List α} {f g : Frame α} {k : Nat}
    (hf : F.frame p (c ++ rest) = some f) (hk : k ≤ input.length)
    (hg : F.frame p (c ++ input.take k) = some g) (hin : input <+: rest ∨ rest <+: input) :
    k = rest.length ∧ g = f := by
  have hlen := F.length_eq hf hg hk hin
  subst hlen
  refine ⟨rfl, ?_⟩
  have htake : input.take rest.length = rest := by
    cases hin with
    | inl h => rw [h.eq_of_length_le hk, List.take_length]
    | inr h => exact (List.prefix_iff_eq_take.mp h).symm
  rw [htake, hf] at hg
  exact (Option.some.inj hg).symm

/-- A string that is frame after frame, none of them with a history. -/
inductive Spells : List α → List (Frame α) → Prop
  | nil : Spells [] []
  | cons {s t : List α} {f : Frame α} {fs : List (Frame α)} :
      F.frame [] s = some f → Spells t fs → Spells (s ++ t) (f :: fs)

end Format

def contents (fs : List (Frame α)) : List α := fs.flatMap Frame.content

@[simp] theorem contents_nil : contents ([] : List (Frame α)) = [] := rfl
@[simp] theorem contents_cons (f : Frame α) (fs : List (Frame α)) :
    contents (f :: fs) = f.content ++ contents fs := by simp [contents]
theorem contents_append (fs gs : List (Frame α)) :
    contents (fs ++ gs) = contents fs ++ contents gs := by simp [contents]

namespace Format
variable {F : Format α}

theorem Spells.append {s t : List α} {fs gs : List (Frame α)} (h : F.Spells s fs)
    (h' : F.Spells t gs) : F.Spells (s ++ t) (fs ++ gs) := by
  induction h with
  | nil => exact h'
  | cons hf _ ih => rw [List.append_assoc]; exact .cons hf ih

theorem Spells.snoc {s t : List α} {fs : List (Frame α)} {f : Frame α} (h : F.Spells s fs)
    (hf : F.frame [] t = some f) : F.Spells (s ++ t) (fs ++ [f]) := by
  simpa using h.append (.cons hf .nil)

theorem Spells.eq_nil_iff {s : List α} {fs : List (Frame α)} (h : F.Spells s fs) :
    s = [] ↔ fs = [] := by
  cases h with
  | nil => simp
  | cons hf _ => simp [F.ne_nil hf]

end Format
end Pyhdiff.Streaming
