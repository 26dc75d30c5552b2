import Mathlib.Algebra.Ring.Int.Defs
import LispBuiltins.Operation

namespace LispBuiltins

-- The one quotient that needs more than 64 bits wraps around to the dividend.
theorem toInt_quotient (a b : Int64) :
    (a / b).toInt =
      if a.toInt = -2 ^ 63 ∧ b.toInt = -1 then -2 ^ 63 else a.toInt.tdiv b.toInt := by
  split
  case isTrue h =>
    have ha : a = Int64.minValue := Int64.toInt_inj.mp h.left
    have hb : b = -1 := Int64.toInt_inj.mp h.right
    rw [ha, hb]
    rfl
  case isFalse h =>
    -- Nothing wraps around unless both operands are the ones named above.
    by_cases ha : a = Int64.minValue
    case neg => exact Int64.toInt_div_of_ne_left a b ha
    case pos =>
      refine Int64.toInt_div_of_ne_right a b fun hb => h ?_
      rw [ha, hb]
      exact ⟨rfl, rfl⟩

-- The quotient is exact modulo 2 ^ 64, and so is what is left after taking it away.
theorem sub_quotient_mul (a b : Int64) : a - a / b * b = a % b := by
  have hq : a / b = Int64.ofInt (a.toInt.tdiv b.toInt) := by
    rw [Int64.ofInt_tdiv a.minValue_le_toInt a.toInt_le b.minValue_le_toInt b.toInt_le,
      Int64.ofInt_toInt, Int64.ofInt_toInt]
  calc a - a / b * b
    _ = Int64.ofInt a.toInt - Int64.ofInt (a.toInt.tdiv b.toInt) * Int64.ofInt b.toInt := by
      rw [← hq, Int64.ofInt_toInt, Int64.ofInt_toInt]
    _ = Int64.ofInt (a.toInt - a.toInt.tdiv b.toInt * b.toInt) := by
      rw [Int64.ofInt_sub, Int64.ofInt_mul]
    _ = Int64.ofInt (a % b).toInt := by
      rw [Int64.toInt_mod, Int.tdiv_mul_self, Int.sub_sub_self]
    _ = a % b := Int64.ofInt_toInt _

theorem sign_remainder (a b : Int) : a.tmod b = 0 ∨ (a.tmod b).sign = a.sign := by
  by_cases h : b ∣ a
  case pos => exact .inl <| Int.tmod_eq_zero_of_dvd h
  case neg => exact .inr <| (Int.sign_tmod a b).trans (if_neg h)

namespace Value

theorem divide_integer (a b : Int64) :
    (integer a).divide (integer b) =
      if b = 0 then .error (.divisionByZero a) else .ok (integer (a / b)) :=
  rfl

-- A quotient goes toward zero. What multiplication and subtraction leave of the dividend is the
-- exact remainder, also where the quotient itself wraps around.
theorem divide_with_remainder (a b : Int64) :
    (b = 0 → (integer a).divide (integer b) = .error (.divisionByZero a)) ∧
    (b ≠ 0 → ∃ q r : Int64,
      (integer a).divide (integer b) = .ok (integer q) ∧
      q.toInt = (if a.toInt = -2 ^ 63 ∧ b.toInt = -1 then -2 ^ 63 else a.toInt.tdiv b.toInt) ∧
      ((integer q).multiply (integer b) >>= (integer a).subtract) = .ok (integer r) ∧
      r.toInt = a.toInt.tmod b.toInt ∧
      r.toInt.natAbs < b.toInt.natAbs ∧
      (r.toInt = 0 ∨ r.toInt.sign = a.toInt.sign) ∧
      b.toInt ∣ a.toInt - r.toInt) := by
  rw [divide_integer]
  refine ⟨(if_pos ·), fun hb => ⟨a / b, a % b, if_neg hb, toInt_quotient a b, ?_⟩⟩
  have hb : b.toInt ≠ 0 := fun h => hb (Int64.toInt_inj.mp h)
  have hl : (a.toInt.tmod b.toInt).natAbs < b.toInt.natAbs :=
    Int.natAbs_tmod .. ▸ Nat.mod_lt _ (Int.natAbs_pos.mpr hb)
  rw [Int64.toInt_mod, ← sub_quotient_mul]
  exact ⟨rfl, rfl, hl, sign_remainder .., Int.dvd_self_sub_tmod⟩

end Value
end LispBuiltins
