import Pyhdiff.Guarantees.Frames
import Pyhdiff.Native.Shortage

/-! The failures of the decoding calls: which of them are instances of
`pyhdiff.Error`. -/
namespace Pyhdiff.Guarantees
open Native Python Streaming

/-- A call that returns bytes or raises an instance of `pyhdiff.Error`. -/
def Contained (x : Py Bytes) : Prop := Settles (fun _ => True) (fun e => e.isError = true) x

theorem exceptionOf_isError (code : Nat) (decoding : Bool) :
    (exceptionOf code decoding).isError = true := by
  unfold exceptionOf
  dsimp only
  repeat' split
  all_goals rfl

section
variable {C : Host} {I : Interpreter} {base object : Bytes} {offset n : Nat}

theorem contained_apply (zstd : Bool) (base : Bytes) (hoffset : offset ≤ object.length)
    (hsmall : offset < 2 ^ 63) (hn : n ≤ rawMax) :
    Contained (call true (Extension.apply C I zstd base object offset n)) ↔
      I.bytesObject n = true := by
  rw [Extension.apply_eq hoffset hsmall hn]
  by_cases hgranted : I.bytesObject n = true
  · rw [if_neg (not_not.mpr hgranted)]
    refine iff_of_true ?_ hgranted
    cases C.applyInto_ends zstd base (object.drop offset) n with
    | inl h =>
      obtain ⟨s, h⟩ := h
      rw [h]
      exact exceptionOf_isError s.code true
    | inr h =>
      obtain ⟨d, h, -⟩ := h
      rw [h]
      trivial
  · rw [if_pos hgranted]
    exact iff_of_false Bool.false_ne_true hgranted

end

section
variable {C : Host} {I : Interpreter}

theorem contained_raw (zstd : Bool) (base payload : Bytes) (n : Int) :
    Contained (Raw.applyWith (Extension.apply C I zstd) base payload n) ↔
      (base.length ≤ rawMax → 0 ≤ n → n ≤ rawMax → I.bytesObject n.toNat = true) := by
  by_cases hpassed : base.length ≤ rawMax ∧ 0 ≤ n ∧ n ≤ rawMax
  · obtain ⟨hbase, hn, hle⟩ := hpassed
    obtain ⟨k, rfl⟩ := Int.eq_ofNat_of_zero_le hn
    rw [Raw.applyWith_eq hbase (by omega), ← Int.natCast_zero,
      contained_apply _ base (Nat.zero_le _) (by decide) (by omega)]
    exact ⟨fun hgranted _ _ _ => hgranted, fun h => h hbase hn hle⟩
  · refine iff_of_true ?_ fun hbase hn hle => absurd ⟨hbase, hn, hle⟩ hpassed
    unfold Raw.applyWith Raw.inputs
    split
    · rfl
    · rw [ok_bind]
      dsimp only
      rw [if_pos fun hn => hpassed ⟨by omega, hn⟩]
      rfl

end

section
variable {C : Host} {I : Interpreter} {R : Shortage C.zstd}

end
section
variable {C : Host} {I : Interpreter}

end

end Pyhdiff.Guarantees
