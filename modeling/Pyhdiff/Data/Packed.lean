import Mathlib.Algebra.GroupWithZero.Nat
import Mathlib.Tactic.Common
import Mathlib.Tactic.Ring

/-! Numbers of variable length: digits of base 128, most significant first, all
but the last with their high bit set. -/
namespace Pyhdiff.Packed

/-- The `w` low-order digits. -/
def digits : Nat → Nat → List UInt8
  | 0, _ => []
  | w+1, n => UInt8.ofNat (n / 128 ^ w % 128 + if w = 0 then 0 else 128) :: digits w n

/-- How many digits a number takes, of `k + 1` at most. -/
def width : Nat → Nat → Nat
  | 0, _ => 1
  | k+1, n => if n < 128 then 1 else width k (n / 128) + 1

def encode (n : Nat) : List UInt8 := digits (width 9 n) n

/-- A number below `2 ^ 64`, and what follows it. -/
def readFrom : Nat → Nat → List UInt8 → Option (Nat × List UInt8)
  | fuel+1, v, b :: rest =>
    if 2 ^ 57 ≤ v then none
    else if b.toNat < 128 then some (128 * v + b.toNat, rest)
    else readFrom fuel (128 * v + (b.toNat - 128)) rest
  | _, _, _ => none

def read : List UInt8 → Option (Nat × List UInt8) := readFrom 10 0

def readMany : Nat → List UInt8 → Option (List Nat × List UInt8)
  | 0, b => some ([], b)
  | k+1, b => do
    let (v, b) ← read b
    let (vs, b) ← readMany k b
    return (v :: vs, b)

@[simp] theorem digits_length (w n : Nat) : (digits w n).length = w := by
  induction w with
  | zero => rfl
  | succ w ih => rw [digits, List.length_cons, ih]

theorem width_pos (k n : Nat) : 0 < width k n := by
  cases k with
  | zero => exact Nat.one_pos
  | succ k =>
    rw [width]
    split <;> omega

theorem width_le (k n : Nat) : width k n ≤ k + 1 := by
  induction k generalizing n with
  | zero => exact Nat.le_refl _
  | succ k ih =>
    rw [width]
    split
    · omega
    · exact Nat.succ_le_succ (ih _)

theorem lt_width {k n : Nat} (h : n < 128 ^ (k + 1)) : n < 128 ^ width k n := by
  induction k generalizing n with
  | zero => exact h
  | succ k ih =>
    rw [width]
    split
    · rename_i hsmall
      rwa [Nat.pow_one]
    · have hn : n / 128 < 128 ^ (k + 1) := by
        rw [Nat.pow_succ] at h
        omega
      have hwidth := ih hn
      rw [Nat.pow_succ]
      omega

theorem readFrom_digits {fuel w v n : Nat} (hfuel : w < fuel)
    (hbound : v * 128 ^ (w + 1) + n % 128 ^ (w + 1) < 2 ^ 64) (rest : List UInt8) :
    readFrom fuel v (digits (w + 1) n ++ rest) =
      some (v * 128 ^ (w + 1) + n % 128 ^ (w + 1), rest) := by
  induction w generalizing fuel v with
  | zero =>
    obtain ⟨fuel, rfl⟩ := Nat.exists_eq_succ_of_ne_zero (Nat.ne_of_gt hfuel)
    have hdigit : (UInt8.ofNat (n / 128 ^ 0 % 128 + if 0 = 0 then 0 else 128)).toNat = n % 128 := by
      rw [Nat.pow_zero, Nat.div_one, if_pos rfl, UInt8.toNat_ofNat']
      omega
    rw [Nat.zero_add, Nat.pow_one] at hbound ⊢
    rw [digits, digits, List.cons_append, List.nil_append, readFrom, hdigit, if_neg (by omega),
      if_pos (Nat.mod_lt _ (by decide)), Nat.mul_comm]
  | succ w ih =>
    obtain ⟨fuel, rfl⟩ := Nat.exists_eq_succ_of_ne_zero (by omega : fuel ≠ 0)
    have hdigit : (UInt8.ofNat (n / 128 ^ (w + 1) % 128 + if w + 1 = 0 then 0 else 128)).toNat =
        n / 128 ^ (w + 1) % 128 + 128 := by
      rw [if_neg (Nat.succ_ne_zero w), UInt8.toNat_ofNat']
      omega
    have hmod : n % 128 ^ (w + 1 + 1) =
        n % 128 ^ (w + 1) + 128 ^ (w + 1) * (n / 128 ^ (w + 1) % 128) := Nat.mod_pow_succ
    have hsum : (128 * v + n / 128 ^ (w + 1) % 128) * 128 ^ (w + 1) + n % 128 ^ (w + 1) =
        v * 128 ^ (w + 1 + 1) + n % 128 ^ (w + 1 + 1) := by
      rw [hmod, Nat.pow_succ 128 (w + 1)]
      ring
    have hv : v * 128 ≤ v * 128 ^ (w + 1 + 1) := by
      refine Nat.mul_le_mul_left v ?_
      rw [Nat.pow_succ]
      exact Nat.le_mul_of_pos_left _ (Nat.pow_pos (by decide))
    rw [digits, List.cons_append, readFrom, hdigit, if_neg (by omega), if_neg (by omega),
      Nat.add_sub_cancel, ih (by omega) (by rw [hsum]; exact hbound), hsum]

/-- A number of any number of digits is read back. -/
theorem read_digits {w n : Nat} (hpos : 0 < w) (hw : w ≤ 10) (hn : n < 128 ^ w) (hbound : n < 2 ^ 64)
    (rest : List UInt8) : read (digits w n ++ rest) = some (n, rest) := by
  obtain ⟨w, rfl⟩ := Nat.exists_eq_succ_of_ne_zero (Nat.ne_of_gt hpos)
  have hmod : n % 128 ^ (w + 1) = n := Nat.mod_eq_of_lt hn
  have hread := @readFrom_digits 10 w 0 n (by omega) (by rw [hmod]; omega) rest
  rwa [hmod, Nat.zero_mul, Nat.zero_add] at hread

theorem read_encode {n : Nat} (hbound : n < 2 ^ 64) (rest : List UInt8) :
    read (encode n ++ rest) = some (n, rest) :=
  read_digits (width_pos 9 n) (width_le 9 n)
    (lt_width (Nat.lt_trans hbound (by decide))) hbound rest

/-- Reading takes a beginning of the string, and depends on that alone. -/
theorem readFrom_split {fuel v x : Nat} {b rest : List UInt8} (h : readFrom fuel v b = some (x, rest)) :
    ∃ s, b = s ++ rest ∧ s.length ≤ fuel ∧ x < 2 ^ 64 ∧ ∀ t, readFrom fuel v (s ++ t) = some (x, t) := by
  induction fuel generalizing v b with
  | zero => cases h
  | succ fuel ih =>
    cases b with
    | nil => cases h
    | cons a b =>
      rw [readFrom] at h
      by_cases hlarge : 2 ^ 57 ≤ v
      · rw [if_pos hlarge] at h
        cases h
      rw [if_neg hlarge] at h
      have ha := a.toNat_lt
      by_cases hlast : a.toNat < 128
      · rw [if_pos hlast] at h
        obtain ⟨rfl, rfl⟩ := Prod.mk.inj (Option.some.inj h)
        refine ⟨[a], rfl, by simp, by omega, fun t => ?_⟩
        rw [List.singleton_append, readFrom, if_neg hlarge, if_pos hlast]
      · rw [if_neg hlast] at h
        obtain ⟨s, rfl, hlen, hx, hread⟩ := ih h
        refine ⟨a :: s, rfl, Nat.succ_le_succ hlen, hx, fun t => ?_⟩
        rw [List.cons_append, readFrom, if_neg hlarge, if_neg hlast, hread]

theorem readMany_cons {k v : Nat} {vs : List Nat} {b b' rest : List UInt8} (hv : read b = some (v, b'))
    (hvs : readMany k b' = some (vs, rest)) : readMany (k + 1) b = some (v :: vs, rest) := by
  rw [readMany, hv]
  simp only [Option.bind_eq_bind, Option.bind_some, hvs]
  rfl

theorem readMany_split {k : Nat} {vs : List Nat} {b rest : List UInt8}
    (h : readMany k b = some (vs, rest)) : ∃ s, b = s ++ rest ∧ s.length ≤ 10 * k ∧ vs.length = k ∧
      (∀ v ∈ vs, v < 2 ^ 64) ∧ ∀ t, readMany k (s ++ t) = some (vs, t) := by
  induction k generalizing vs b with
  | zero =>
    obtain ⟨rfl, rfl⟩ := Prod.mk.inj (Option.some.inj h)
    exact ⟨[], rfl, Nat.le_refl _, rfl, by simp, fun _ => rfl⟩
  | succ k ih =>
    simp only [readMany, Option.bind_eq_bind, Option.bind_eq_some_iff] at h
    obtain ⟨⟨v, b'⟩, hv, ⟨us, b''⟩, hus, h⟩ := h
    obtain ⟨rfl, rfl⟩ := Prod.mk.inj (Option.some.inj h)
    obtain ⟨s, rfl, hs, hx, hread⟩ := readFrom_split hv
    obtain ⟨s', rfl, hs', hlen, hsmall, hmany⟩ := ih hus
    refine ⟨s ++ s', by rw [List.append_assoc], ?_, by rw [List.length_cons, hlen], ?_, fun t => ?_⟩
    · rw [List.length_append]
      omega
    · exact List.forall_mem_cons.mpr ⟨hx, hsmall⟩
    · rw [List.append_assoc]
      exact readMany_cons (hread (s' ++ t)) (hmany t)

end Pyhdiff.Packed
