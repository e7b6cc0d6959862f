import Mathlib.Algebra.GroupWithZero.Nat
import Mathlib.Tactic.Common
import Mathlib.Data.List.Induction

/-! Fixed-width big-endian numbers as byte strings. -/
namespace Pyhdiff.BigEndian

/-- The `w` low-order bytes of a number, most significant first. -/
def encode : Nat → Nat → List UInt8
  | 0, _ => []
  | w+1, n => encode w (n / 256) ++ [UInt8.ofNat n]

def decode (b : List UInt8) : Nat := b.foldl (fun n x => 256 * n + x.toNat) 0

@[simp] theorem encode_length (w n : Nat) : (encode w n).length = w := by
  induction w generalizing n with
  | zero => rfl
  | succ w ih => simp [encode, ih]

theorem decode_snoc (b : List UInt8) (x : UInt8) :
    decode (b ++ [x]) = 256 * decode b + x.toNat := by simp [decode]

theorem decode_lt (b : List UInt8) : decode b < 256 ^ b.length := by
  induction b using List.reverseRecOn with
  | nil => simp [decode]
  | append_singleton b x ih =>
    have hx := x.toNat_lt
    rw [decode_snoc, List.length_append, List.length_singleton, Nat.pow_succ]
    omega

theorem decode_encode (w n : Nat) (h : n < 256 ^ w) : decode (encode w n) = n := by
  induction w generalizing n with
  | zero =>
    have : n = 0 := by simpa using h
    simp [encode, decode, this]
  | succ w ih =>
    have hn : n / 256 < 256 ^ w := by
      rw [Nat.pow_succ] at h
      omega
    rw [encode, decode_snoc, ih _ hn, UInt8.toNat_ofNat']
    omega

theorem encode_decode (b : List UInt8) : encode b.length (decode b) = b := by
  induction b using List.reverseRecOn with
  | nil => rfl
  | append_singleton b x ih =>
    have hx := x.toNat_lt
    have hd : (256 * decode b + x.toNat) / 256 = decode b := by omega
    have hl : UInt8.ofNat (256 * decode b + x.toNat) = x := by
      apply UInt8.toNat_inj.mp
      rw [UInt8.toNat_ofNat']
      omega
    rw [List.length_append, List.length_singleton, encode, decode_snoc, hd, ih, hl]

end Pyhdiff.BigEndian
