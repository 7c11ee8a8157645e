import CoopScript.Proofs.StepEffects
import Mathlib.Data.Int.ModEq
import Mathlib.Data.Rat.Floor

/-! Remainders of integers. A remainder is meant to be the floored one, which has the sign of the
divisor. It is computed from the truncated one: the divisor is added, and the sum is truncated again.
In 64 bits the sum may wrap around, and exactly then something else comes out. -/

namespace CoopScript

/-- What a number has above the greatest multiple of the divisor: the quotient is rounded down. -/
def flooredRemainder (a b : Int) : Int := a - b * ⌊(a : ℚ) / b⌋

/-- What is left of a number has the sign of the divisor, or is zero, and is less than the divisor. -/
structure IsRemainder (a b r : Int) : Prop where
  sign : r = 0 ∨ r.sign = b.sign
  small : |r| < |b|
  congruent : r ≡ a [ZMOD b]

section Integers

variable {a b r : Int}

theorem flooredRemainder_neg_neg (a b : Int) : flooredRemainder (-a) (-b) = -flooredRemainder a b := by
  have same : ((-a : Int) : ℚ) / (-b : Int) = (a : ℚ) / b := by
    rw [Int.cast_neg, Int.cast_neg, neg_div_neg_eq]
  rw [flooredRemainder, same, flooredRemainder]
  ring

theorem flooredRemainder_of_pos (positive : 0 < b) : flooredRemainder a b = a % b := by
  obtain ⟨n, rfl⟩ := Int.eq_ofNat_of_zero_le positive.le
  exact Int.mod_nat_eq_sub_mul_floor_rat_div.symm

theorem IsRemainder.neg_neg (remainder : IsRemainder a b r) : IsRemainder (-a) (-b) (-r) := by
  refine ⟨?_, ?_, ?_⟩
  · rw [Int.sign_neg, Int.sign_neg, neg_eq_zero, neg_inj]
    exact remainder.sign
  · rw [abs_neg, abs_neg]
    exact remainder.small
  · exact Int.modEq_neg.mpr remainder.congruent.neg

theorem isRemainder_iff_of_pos (positive : 0 < b) : IsRemainder a b r ↔ r = a % b := by
  constructor
  · intro ⟨sign, small, congruent⟩
    have low : 0 ≤ r := by
      rcases sign with rfl | same
      · exact Int.le_refl 0
      · exact (Int.sign_eq_one_iff_pos.mp (same.trans (Int.sign_eq_one_of_pos positive))).le
    rw [abs_of_nonneg low, abs_of_pos positive] at small
    rw [← congruent.eq, Int.emod_eq_of_lt low small]
  · rintro rfl
    have low := Int.emod_nonneg a positive.ne'
    refine ⟨?_, ?_, Int.mod_modEq a b⟩
    · rw [Int.sign_eq_one_of_pos positive, Int.sign_eq_one_iff_pos]
      exact low.eq_or_lt.imp_left Eq.symm
    · rw [abs_of_nonneg low, abs_of_pos positive]
      exact Int.emod_lt_of_pos a positive

/-- The floored remainder is the only remainder there is. -/
theorem isRemainder_iff (nonzero : b ≠ 0) : IsRemainder a b r ↔ r = flooredRemainder a b := by
  rcases lt_or_gt_of_ne nonzero with negative | positive
  · have mirrored := isRemainder_iff_of_pos (a := -a) (r := -r) (neg_pos.mpr negative)
    rw [← flooredRemainder_of_pos (neg_pos.mpr negative), flooredRemainder_neg_neg, neg_inj] at mirrored
    rw [← mirrored]
    refine ⟨.neg_neg, fun remainder => ?_⟩
    simpa using remainder.neg_neg
  · rw [isRemainder_iff_of_pos positive, flooredRemainder_of_pos positive]

theorem tmod_add_tmod_of_pos (positive : 0 < b) : (a.tmod b + b).tmod b = a % b := by
  have low := Int.lt_tmod_of_pos a positive
  have shifted : a.tmod b = a - b * a.tdiv b := Int.tmod_def a b
  rw [Int.tmod_eq_emod_of_nonneg (by omega), Int.add_emod_right, shifted, Int.sub_mul_emod_self_left]

/-- If only the sum is not bounded, to truncate twice is right. -/
theorem tmod_add_tmod (nonzero : b ≠ 0) : (a.tmod b + b).tmod b = flooredRemainder a b := by
  rcases lt_or_gt_of_ne nonzero with negative | positive
  · have mirrored := tmod_add_tmod_of_pos (a := -a) (neg_pos.mpr negative)
    rw [← flooredRemainder_of_pos (neg_pos.mpr negative), flooredRemainder_neg_neg, Int.tmod_neg, Int.tmod_neg,
      Int.neg_tmod, ← neg_add, Int.neg_tmod, neg_inj] at mirrored
    exact mirrored
  · rw [tmod_add_tmod_of_pos positive, flooredRemainder_of_pos positive]

/-- A truncated remainder on the divisor's side of zero is the floored one. -/
theorem isRemainder_tmod (same : (a.tmod b).sign = b.sign) (small : |a.tmod b| < |b|) : IsRemainder a b (a.tmod b) := by
  refine ⟨.inr same, small, ?_⟩
  rw [Int.tmod_def]
  exact Int.sub_mul_emod_self_left a b _

end Integers

/-- The divisor added to the truncated remainder is a number of 64 bits. -/
def RemainderFits (a b : Int64) : Prop :=
  -2 ^ 63 ≤ a.toInt.tmod b.toInt + b.toInt ∧ a.toInt.tmod b.toInt + b.toInt < 2 ^ 63

instance (a b : Int64) : Decidable (RemainderFits a b) := inferInstanceAs (Decidable (_ ∧ _))

variable {a b : Int64}

theorem toInt_twice (a b : Int64) :
    ((a % b + b) % b).toInt = ((a.toInt.tmod b.toInt + b.toInt).bmod (2 ^ 64)).tmod b.toInt := by
  rw [Int64.toInt_mod, Int64.toInt_add, Int64.toInt_mod]

theorem abs_tmod_lt (nonzero : b.toInt ≠ 0) : |a.toInt.tmod b.toInt| < |b.toInt| := by
  rcases lt_or_gt_of_ne nonzero with negative | positive
  · rw [← Int.tmod_neg, abs_of_neg negative, abs_lt]
    exact ⟨Int.lt_tmod_of_pos _ (neg_pos.mpr negative), Int.tmod_lt_of_pos _ (neg_pos.mpr negative)⟩
  · rw [abs_of_pos positive, abs_lt]
    exact ⟨Int.lt_tmod_of_pos _ positive, Int.tmod_lt_of_pos _ positive⟩

theorem twice_of_fits (nonzero : b.toInt ≠ 0) (fits : RemainderFits a b) :
    ((a % b + b) % b).toInt = flooredRemainder a.toInt b.toInt := by
  obtain ⟨low, high⟩ := fits
  rw [toInt_twice, Int.bmod_eq_of_le (by omega) (by omega), tmod_add_tmod nonzero]

/-- Where the sum does not fit, both its parts are on the divisor's side of zero, and it ends up on the
other. -/
theorem sign_of_not_fits (nonzero : b.toInt ≠ 0) (wraps : ¬ RemainderFits a b) :
    (a.toInt.tmod b.toInt).sign = b.toInt.sign ∧
      (a.toInt.tmod b.toInt + b.toInt).bmod (2 ^ 64) = a.toInt.tmod b.toInt + b.toInt - b.toInt.sign * 2 ^ 64 ∧
      (a.toInt.tmod b.toInt + b.toInt - b.toInt.sign * 2 ^ 64).sign = -b.toInt.sign := by
  have low := Int64.le_toInt b
  have high := Int64.toInt_lt b
  have small := abs_tmod_lt (a := a) nonzero
  rw [RemainderFits] at wraps
  generalize a.toInt.tmod b.toInt = t at *
  rcases lt_or_gt_of_ne nonzero with negative | positive
  · rw [abs_of_neg negative, abs_lt] at small
    have short : t + b.toInt < -2 ^ 63 := by omega
    rw [Int.sign_eq_neg_one_of_neg negative]
    refine ⟨Int.sign_eq_neg_one_of_neg (by omega), ?_, Int.sign_eq_one_of_pos (by omega)⟩
    rw [Int.bmod_eq_emod]
    split <;> omega
  · rw [abs_of_pos positive, abs_lt] at small
    have beyond : 2 ^ 63 ≤ t + b.toInt := by omega
    rw [Int.sign_eq_one_of_pos positive]
    refine ⟨Int.sign_eq_one_of_pos (by omega), ?_, Int.sign_eq_neg_one_of_neg (by omega)⟩
    rw [Int.bmod_eq_emod]
    split <;> omega

theorem not_isRemainder_of_not_fits (nonzero : b.toInt ≠ 0) (wraps : ¬ RemainderFits a b) :
    ¬ IsRemainder a.toInt b.toInt ((a % b + b) % b).toInt := by
  obtain ⟨same, wrapped, opposite⟩ := sign_of_not_fits nonzero wraps
  rw [isRemainder_iff nonzero, ← (isRemainder_iff nonzero).mp (isRemainder_tmod same (abs_tmod_lt nonzero)),
    toInt_twice, wrapped]
  intro equal
  have signs := congrArg Int.sign equal
  rw [same, Int.sign_tmod, opposite] at signs
  have sided : b.toInt.sign ≠ 0 := mt Int.sign_eq_zero_iff_zero.mp nonzero
  split at signs <;> omega

/-- The remainder of two integers is stored, and it is one exactly if the sum in between fits. -/
theorem Proto.step_remainder {p : Proto} {f : FunctionId} {w : Window} {pc : Nat} {c : Core} {dst lhs rhs : Nat}
    (found : p.code[pc]? = some (.arith .mod dst lhs rhs)) (left : w.get c.context.stack lhs = .int a)
    (right : w.get c.context.stack rhs = .int b) (nonzero : b ≠ 0) : ∃ r : Int64,
      p.step f w pc c = (.ok (.go (.running f w (pc + 1))), c.withStack (w.set c.context.stack dst (.int r))) ∧
      (IsRemainder a.toInt b.toInt r.toInt ↔ RemainderFits a b) ∧
      (RemainderFits a b → r.toInt = flooredRemainder a.toInt b.toInt) ∧
      (¬ RemainderFits a b →
        r.toInt = (a.toInt.tmod b.toInt + b.toInt - b.toInt.sign * 2 ^ 64).tmod b.toInt) := by
  have divisor : b.toInt ≠ 0 := fun zero => nonzero (Int64.toInt_inj.mp zero)
  have value : arith .mod (.int a) (.int b) = .ok (.int ((a % b + b) % b)) := by
    rw [arith, arithInt, if_neg nonzero]
  refine ⟨(a % b + b) % b, ?_, ⟨?_, ?_⟩, twice_of_fits divisor, ?_⟩
  · rw [Proto.step_plain c (by simp [found, Instr.isAccounting]), found, Proto.effect, left, right, value]
    rfl
  · exact not_imp_not.mp (not_isRemainder_of_not_fits divisor)
  · intro fits
    exact (isRemainder_iff divisor).mpr (twice_of_fits divisor fits)
  · intro wraps
    rw [toInt_twice, (sign_of_not_fits divisor wraps).2.1]

private def least : Proto where
  name := "least"
  params := 2
  regs := 3
  constants := []
  code := [.arith .mod 2 0 1, .ret 2 1]

private def leastCore : Core :=
  ⟨{}, { stack := ⟨#[.int (-9223372036854775808), .int 9223372036854775807, .nil], 3⟩, budget := Budget.new {} }⟩

/-- The least number has the greatest one less one above the greatest multiple of the greatest one. -/
theorem Proto.step_remainder_least : ∃ r : Int64,
    least.step ⟨0⟩ ⟨0⟩ 0 leastCore =
      (.ok (.go (.running ⟨0⟩ ⟨0⟩ 1)), leastCore.withStack ((⟨0⟩ : Window).set leastCore.context.stack 2 (.int r))) ∧
    r.toInt = flooredRemainder (-9223372036854775808) 9223372036854775807 ∧
    IsRemainder (-9223372036854775808) 9223372036854775807 r.toInt := by
  have fits : RemainderFits (-9223372036854775808) 9223372036854775807 := by decide
  have found : least.code[0]? = some (.arith .mod 2 0 1) := rfl
  have left : (⟨0⟩ : Window).get leastCore.context.stack 0 = .int (-9223372036854775808) := rfl
  have right : (⟨0⟩ : Window).get leastCore.context.stack 1 = .int 9223372036854775807 := rfl
  obtain ⟨r, stepped, exact, floored, -⟩ := Proto.step_remainder (f := ⟨0⟩) found left right (by decide)
  exact ⟨r, stepped, floored fits, exact.mpr fits⟩

/-- The truncated remainder of these two is the dividend itself, and the divisor added to it is beyond
64 bits. -/
theorem remainder_wraps :
    arith .mod (.int 9223372036854775806) (.int 9223372036854775807) = .ok (.int (-3)) ∧
    flooredRemainder 9223372036854775806 9223372036854775807 = 9223372036854775806 ∧
    ¬ IsRemainder 9223372036854775806 9223372036854775807 (-3) := by
  have floored : flooredRemainder 9223372036854775806 9223372036854775807 = 9223372036854775806 :=
    flooredRemainder_of_pos (by decide)
  refine ⟨by decide, floored, ?_⟩
  rw [isRemainder_iff (by decide), floored]
  decide

end CoopScript
