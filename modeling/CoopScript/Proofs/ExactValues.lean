import CoopScript.Value
import Mathlib

/-! Numbers by their exact values, counted in the units of the least float. A greater magnitude stands for more units,
so floats are ordered by their ranks as they are by their values, and a float that equals an integer of 64 bits says
which one. -/

namespace CoopScript

namespace Binary64

/-- The number of units that a magnitude stands for. -/
def unitsOf (magnitude : Nat) : Nat :=
  let field := magnitude / 2 ^ 52
  let fraction := magnitude % 2 ^ 52
  (if field = 0 then fraction else 2 ^ 52 + fraction) * 2 ^ (field - 1)

theorem units_eq (x : Binary64) : x.units = unitsOf x.magnitude := rfl

theorem unitsOf_parts (field : Nat) {fraction : Nat} (small : fraction < 2 ^ 52) :
    unitsOf (2 ^ 52 * field + fraction) = (if field = 0 then fraction else 2 ^ 52 + fraction) * 2 ^ (field - 1) := by
  rw [unitsOf, Nat.mul_add_div (Nat.two_pow_pos 52), Nat.div_eq_of_lt small, Nat.mul_add_mod, Nat.mod_eq_of_lt small,
    Nat.add_zero]

/-- The next magnitude has the next significand, or half of what would be next under twice the scale. -/
theorem unitsOf_lt_succ (magnitude : Nat) : unitsOf magnitude < unitsOf (magnitude + 1) := by
  have small := Nat.mod_lt magnitude (Nat.two_pow_pos 52)
  rw [← Nat.div_add_mod magnitude (2 ^ 52)]
  generalize magnitude / 2 ^ 52 = field at *
  generalize magnitude % 2 ^ 52 = fraction at *
  by_cases carried : fraction + 1 = 2 ^ 52
  · have next : 2 ^ 52 * field + fraction + 1 = 2 ^ 52 * (field + 1) + 0 := by omega
    rw [next, unitsOf_parts field small, unitsOf_parts (field + 1) (Nat.two_pow_pos 52)]
    cases field with
    | zero => simp; omega
    | succ field =>
      have positive := Nat.two_pow_pos field
      obtain rfl : fraction = 2 ^ 52 - 1 := by omega
      simp only [Nat.add_one_ne_zero, if_false, Nat.add_sub_cancel, Nat.add_zero, Nat.pow_succ 2 field]
      omega
  · rw [Nat.add_assoc, unitsOf_parts field small, unitsOf_parts field (by omega)]
    apply Nat.mul_lt_mul_of_pos_right _ (Nat.two_pow_pos _)
    split <;> omega

theorem unitsOf_strictMono : StrictMono unitsOf := strictMono_nat_of_lt_succ unitsOf_lt_succ

/-- The number of units that a rank stands for. -/
def unitsAt : Int → Int
  | .ofNat magnitude => unitsOf magnitude
  | .negSucc less => -(unitsOf (less + 1) : Int)

theorem unitsAt_neg (magnitude : Nat) : unitsAt (-(magnitude : Int)) = -(unitsOf magnitude : Int) := by
  cases magnitude <;> rfl

theorem signedUnits_eq (x : Binary64) : x.signedUnits = unitsAt x.rank := by
  rw [signedUnits, rank, units_eq]
  split
  · exact (unitsAt_neg _).symm
  · rfl

theorem unitsAt_strictMono : StrictMono unitsAt := by
  have positive (less : Nat) : 0 < unitsOf (less + 1) := unitsOf_strictMono (Nat.succ_pos less)
  intro a b below
  rcases a with a | a <;> rcases b with b | b
  · exact Int.ofNat_lt.mpr (unitsOf_strictMono (Int.ofNat_lt.mp below))
  · exact absurd (Int.lt_trans below (Int.negSucc_lt_zero b)) (Int.not_lt.mpr (Int.natCast_nonneg a))
  · have above := positive a
    simp only [unitsAt]
    omega
  · have more : unitsOf (b + 1) < unitsOf (a + 1) := unitsOf_strictMono (by omega)
    simp only [unitsAt]
    omega

variable {x y : Binary64} {i : Int64}

/-- Floats are ordered by their ranks as they are by their exact values. -/
theorem rank_lt_iff : x.rank < y.rank ↔ x.signedUnits < y.signedUnits := by
  rw [signedUnits_eq, signedUnits_eq, unitsAt_strictMono.lt_iff_lt]

theorem rank_eq_iff : x.rank = y.rank ↔ x.signedUnits = y.signedUnits := by
  rw [signedUnits_eq, signedUnits_eq, unitsAt_strictMono.injective.eq_iff]

theorem same_iff : x.same y = true ↔ x.isNaN = false ∧ y.isNaN = false ∧ x.rank = y.rank := by
  rw [same, compare?]
  cases x.isNaN <;> cases y.isNaN <;> simp

/-- Only zero has more than one word. -/
theorem eq_of_rank (same : x.rank = y.rank) (nonzero : x.rank ≠ 0) : x = y := by
  have words : x.bits.toNat = y.bits.toNat := by
    have half : twoPow 63 = 9223372036854775808 := rfl
    have fits := x.bits.toNat_lt
    have fits' := y.bits.toNat_lt
    simp only [rank, isNegative, magnitude, half, decide_eq_true_eq] at same nonzero
    split at same <;> split at same <;> omega
  obtain ⟨bits⟩ := x
  obtain ⟨bits'⟩ := y
  rw [Binary64.mk.injEq]
  exact UInt64.toNat_inj.mp words

theorem one_pos : (0 : Int) < one := by
  have positive (n : Nat) : 0 < twoPow n := Nat.two_pow_pos n
  exact Int.natCast_pos.mpr (positive _)

theorem isIntegral_iff : x.isIntegral = true ↔ x.isFinite = true ∧ (one : Int) ∣ x.signedUnits := by
  rw [isIntegral, Bool.and_eq_true, beq_iff_eq, ← Nat.dvd_iff_mod_eq_zero, ← Int.natCast_dvd_natCast, signedUnits]
  split
  · rw [Int.dvd_neg]
  · rfl

/-- A float is the integer of 64 bits that has as many units. -/
theorem toInt64?_eq_some_iff : x.toInt64? = some i ↔ x.isFinite = true ∧ x.signedUnits = i.toInt * one := by
  have exactly : x.toInt64? = if x.isIntegral && decide (Int64.minValue.toInt ≤ x.signedUnits.tdiv one) &&
      decide (x.signedUnits.tdiv one ≤ Int64.maxValue.toInt) then some (Int64.ofInt (x.signedUnits.tdiv one))
      else none := rfl
  constructor
  · intro converted
    rw [exactly] at converted
    split at converted
    · next within =>
      simp only [Bool.and_eq_true, decide_eq_true_eq, Int64.toInt_minValue, Int64.toInt_maxValue] at within
      obtain ⟨⟨integral, least⟩, most⟩ := within
      obtain ⟨finite, divides⟩ := isIntegral_iff.mp integral
      cases converted
      rw [Int64.toInt_ofInt_of_le least (by omega), Int.tdiv_mul_cancel divides]
      exact ⟨finite, rfl⟩
    · cases converted
  · rintro ⟨finite, whole⟩
    have integral : x.isIntegral = true := isIntegral_iff.mpr ⟨finite, whole ▸ Int.dvd_mul_left _ _⟩
    rw [exactly, integral, whole, Int.mul_tdiv_cancel _ one_pos.ne', Int64.ofInt_toInt,
      decide_eq_true (Int64.minValue_le_toInt i), decide_eq_true (Int64.toInt_le i)]
    rfl

theorem isFinite_of_toInt64? (converted : x.toInt64? = some i) : x.isFinite = true :=
  (toInt64?_eq_some_iff.mp converted).1

theorem isNaN_of_isFinite (finite : x.isFinite = true) : x.isNaN = false := by
  simp only [isFinite, isNaN, decide_eq_true_eq, decide_eq_false_iff_not] at finite ⊢
  omega

theorem natAbs_rank (x : Binary64) : x.rank.natAbs = x.magnitude := by
  rw [rank]
  split
  · rw [Int.natAbs_neg, Int.natAbs_natCast]
  · rfl

theorem isFinite_congr (same : x.rank = y.rank) : x.isFinite = y.isFinite := by
  rw [isFinite, isFinite, ← natAbs_rank, ← natAbs_rank, same]

/-- Floats of one rank are the same integer, if they are any. -/
theorem toInt64?_congr (same : x.rank = y.rank) : x.toInt64? = y.toInt64? := by
  apply Option.ext
  intro i
  rw [toInt64?_eq_some_iff, toInt64?_eq_some_iff, isFinite_congr same, rank_eq_iff.mp same]

/-- Either zero is the integer zero. -/
theorem toInt64?_zero (zero : x.rank = 0) : x.toInt64? = some 0 := by
  have finite : x.isFinite = true := by
    rw [isFinite, ← natAbs_rank, zero]
    rfl
  rw [toInt64?_eq_some_iff, signedUnits_eq, zero]
  exact ⟨finite, (Int.zero_mul _).symm⟩

end Binary64

namespace Value

open Binary64

/-- The exact value of a finite number. -/
def units? : Value → Option Int
  | int i => some (i.toInt * one)
  | float x => if x.isFinite then some x.signedUnits else none
  | _ => none

/-- Numbers are equal in scripts if their exact values are. -/
theorem same_iff_units {v w : Value} {m n : Int} (left : v.units? = some m) (right : w.units? = some n) :
    v.same w = true ↔ m = n := by
  have float {x : Binary64} {n : Int} (exact : (float x).units? = some n) : x.isFinite = true ∧ n = x.signedUnits := by
    rw [units?] at exact
    split at exact
    · next finite => exact ⟨finite, (Option.some.inj exact).symm⟩
    · cases exact
  have nonzero := one_pos.ne'
  cases v with
  | int i =>
    cases left
    cases w with
    | int j =>
      cases right
      rw [same, beq_iff_eq, Int.mul_eq_mul_right_iff nonzero, Int64.toInt_inj]
    | float y =>
      obtain ⟨finite, rfl⟩ := float right
      rw [same, beq_iff_eq, toInt64?_eq_some_iff, and_iff_right finite, eq_comm]
    | _ => cases right
  | float x =>
    obtain ⟨finite, rfl⟩ := float left
    cases w with
    | int j =>
      cases right
      rw [same, beq_iff_eq, toInt64?_eq_some_iff, and_iff_right finite]
    | float y =>
      obtain ⟨finite', rfl⟩ := float right
      rw [same, same_iff, rank_eq_iff, and_iff_right (isNaN_of_isFinite finite),
        and_iff_right (isNaN_of_isFinite finite')]
    | _ => cases right
  | _ => cases left

end Value

end CoopScript
