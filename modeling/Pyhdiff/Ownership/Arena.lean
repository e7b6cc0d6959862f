import Mathlib.Data.Finmap

/-! Finite maps of blocks by address, and owners of at most one block in them. -/
namespace Pyhdiff.Ownership
variable {β : Type}

abbrev Arena (β : Type) := Finmap fun _ : Nat => β

/-- Where an allocator puts a block: at an address nobody holds. -/
structure Placement (β : Type) where
  place : Arena β → β → Nat
  fresh : ∀ a b, place a b ∉ a

section
variable {rest t : Arena β} {p q : Nat} {b c : β}

@[simp] theorem erase_insert (hp : p ∉ rest) : (rest.insert p b).erase p = rest := by
  refine Finmap.ext_lookup fun x => ?_
  by_cases hx : x = p
  · rw [hx, Finmap.lookup_erase, Finmap.lookup_eq_none.mpr hp]
  · rw [Finmap.lookup_erase_ne hx, Finmap.lookup_insert_of_ne rest hx]

theorem erase_insert_ne (hpq : p ≠ q) : (rest.insert p b).erase q = (rest.erase q).insert p b := by
  refine Finmap.ext_lookup fun x => ?_
  by_cases hx : x = q
  · rw [hx, Finmap.lookup_erase, Finmap.lookup_insert_of_ne _ hpq.symm, Finmap.lookup_erase]
  · rw [Finmap.lookup_erase_ne hx]
    by_cases hxp : x = p
    · rw [hxp, Finmap.lookup_insert, Finmap.lookup_insert]
    · rw [Finmap.lookup_insert_of_ne _ hxp, Finmap.lookup_insert_of_ne _ hxp,
        Finmap.lookup_erase_ne hx]

theorem insert_lookup (h : rest.lookup p = some b) : rest.insert p b = rest := by
  refine Finmap.ext_lookup fun x => ?_
  by_cases hx : x = p
  · rw [hx, Finmap.lookup_insert, h]
  · rw [Finmap.lookup_insert_of_ne rest hx]

end

/-- Of the arena `t` an owner holds the block `b` at `p`, or nothing, and `rest`
is what the others hold. -/
def Holds (p : Option Nat) (b : β) (rest t : Arena β) : Prop :=
  match p with
  | none => t = rest
  | some p => p ∉ rest ∧ t = rest.insert p b

namespace Holds
variable {p : Option Nat} {q : Nat} {b c : β} {rest t : Arena β}

theorem lookup (h : Holds (some q) b rest t) : t.lookup q = some b := by
  rw [h.2, Finmap.lookup_insert]

theorem lookup_rest (h : Holds p b rest t) (hq : rest.lookup q = some c) : t.lookup q = some c := by
  cases p with
  | none =>
    obtain rfl : t = rest := h
    exact hq
  | some p =>
    obtain ⟨hp, rfl⟩ := h
    have hne : q ≠ p := by
      intro hqp
      rw [hqp, Finmap.lookup_eq_none.mpr hp] at hq
      cases hq
    rw [Finmap.lookup_insert_of_ne rest hne, hq]

theorem fresh (h : Holds p b rest t) (hq : q ∉ t) : q ∉ rest := by
  intro hrest
  obtain ⟨c, hc⟩ := Finmap.mem_iff.mp hrest
  exact hq (Finmap.mem_of_lookup_eq_some (h.lookup_rest hc))

theorem erase (h : Holds (some q) b rest t) : t.erase q = rest := by
  rw [h.2, erase_insert h.1]

theorem replace (h : Holds (some q) b rest t) (c : β) : Holds (some q) c rest (t.insert q c) :=
  ⟨h.1, by rw [h.2, Finmap.insert_insert]⟩

theorem create (h : Holds p b rest t) (hq : q ∉ t) : Holds p b (rest.insert q c) (t.insert q c) := by
  cases p with
  | none => exact congrArg (Finmap.insert q c) h
  | some p =>
    obtain ⟨hp, rfl⟩ := h
    rw [Finmap.mem_insert, not_or] at hq
    refine ⟨?_, Finmap.insert_insert_of_ne rest (Ne.symm hq.1)⟩
    rw [Finmap.mem_insert, not_or]
    exact ⟨Ne.symm hq.1, hp⟩

theorem destroy (h : Holds p b (rest.insert q c) t) (hq : q ∉ rest) :
    t.lookup q = some c ∧ Holds p b rest (t.erase q) := by
  cases p with
  | none =>
    obtain rfl : t = rest.insert q c := h
    exact ⟨Finmap.lookup_insert rest, erase_insert hq⟩
  | some p =>
    obtain ⟨hp, rfl⟩ := h
    rw [Finmap.mem_insert, not_or] at hp
    refine ⟨?_, hp.2, ?_⟩
    · rw [Finmap.lookup_insert_of_ne _ (Ne.symm hp.1), Finmap.lookup_insert]
    · rw [erase_insert_ne hp.1, erase_insert hq]

end Holds
end Pyhdiff.Ownership
