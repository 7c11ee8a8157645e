import CoopScript.Proofs.ExactValues

/-! Integers as floats. An exact number of units lies between two neighbouring magnitudes and is rounded to one of them,
to the lower one if it is that one exactly. So what is a float already is kept, and no float is passed: a number is
rounded to at least what it is at least, and to at most what it is at most. -/

namespace CoopScript

namespace Binary64

/-- The scale that leaves a significand of 53 bits. -/
def scaleFor (num : Nat) : Nat := num.log2 - 52

/-- The greatest magnitude that stands for no more units than these. -/
def truncated (num : Nat) : Nat := scaleFor num * 2 ^ 52 + num / 2 ^ scaleFor num

/-- A significand that is normal, or that is not scaled. The one after the last is the first of the next scale. -/
theorem unitsOf_scaled {scale significand : Nat} (normal : scale = 0 ∨ 2 ^ 52 ≤ significand)
    (fits : significand ≤ 2 ^ 53) : unitsOf (scale * 2 ^ 52 + significand) = significand * 2 ^ scale := by
  by_cases small : significand < 2 ^ 52
  · obtain rfl : scale = 0 := by omega
    have place : 0 * 2 ^ 52 + significand = 2 ^ 52 * 0 + significand := by omega
    rw [place, unitsOf_parts 0 small, if_pos rfl]
  · by_cases last : significand = 2 ^ 53
    · have place : scale * 2 ^ 52 + significand = 2 ^ 52 * (scale + 2) + 0 := by omega
      have twice : 2 ^ (scale + 2 - 1) = 2 ^ scale * 2 := Nat.pow_succ 2 scale
      rw [place, unitsOf_parts _ (by omega), if_neg (by omega), last, twice]
      omega
    · have place : scale * 2 ^ 52 + significand = 2 ^ 52 * (scale + 1) + (significand - 2 ^ 52) := by omega
      rw [place, unitsOf_parts _ (by omega), if_neg (by omega), Nat.add_sub_cancel, Nat.add_sub_cancel' (by omega)]

theorem significand_lt (num : Nat) : num / 2 ^ scaleFor num < 2 ^ 53 := by
  rw [Nat.div_lt_iff_lt_mul (Nat.two_pow_pos _), ← Nat.pow_add]
  have within : num < 2 ^ (num.log2 + 1) := Nat.lt_log2_self
  exact within.trans_le (Nat.pow_le_pow_right (by decide) (by rw [scaleFor]; omega))

theorem significand_normal (num : Nat) : scaleFor num = 0 ∨ 2 ^ 52 ≤ num / 2 ^ scaleFor num := by
  by_cases unscaled : scaleFor num = 0
  · exact .inl unscaled
  · have large : num.log2 = 52 + scaleFor num := by
      rw [scaleFor] at unscaled ⊢
      omega
    have nonzero : num ≠ 0 := by
      rintro rfl
      exact unscaled rfl
    rw [Nat.le_div_iff_mul_le (Nat.two_pow_pos _), ← Nat.pow_add, ← large]
    exact .inr (Nat.log2_self_le nonzero)

theorem unitsOf_truncated (num : Nat) :
    unitsOf (truncated num) = num / 2 ^ scaleFor num * 2 ^ scaleFor num :=
  unitsOf_scaled (significand_normal num) (significand_lt num).le

theorem unitsOf_truncated_succ (num : Nat) :
    unitsOf (truncated num + 1) = (num / 2 ^ scaleFor num + 1) * 2 ^ scaleFor num := by
  rw [truncated, Nat.add_assoc]
  exact unitsOf_scaled ((significand_normal num).imp_right Nat.le_succ_of_le) (Nat.succ_le_of_lt (significand_lt num))

/-- A quotient is rounded to the integer below, or to the one above if it is not whole. -/
theorem roundQuotient_cases (num : Nat) {den : Nat} (positive : 0 < den) :
    roundQuotient num den = num / den ∨ roundQuotient num den = num / den + 1 ∧ num % den ≠ 0 := by
  rw [roundQuotient]
  split
  · next up =>
    refine .inr ⟨rfl, ?_⟩
    intro whole
    simp only [whole, Bool.or_eq_true, Bool.and_eq_true, decide_eq_true_eq, beq_iff_eq] at up
    omega
  · exact .inl rfl

/-- A number of units is rounded to one of the magnitudes that it lies between. -/
theorem roundUnits_cases (num : Nat) :
    roundUnits num 1 = min infiniteMagnitude (truncated num) ∨
      roundUnits num 1 = min infiniteMagnitude (truncated num + 1) ∧ unitsOf (truncated num) < num := by
  have rounded : roundUnits num 1 =
      min infiniteMagnitude (scaleFor num * 2 ^ 52 + roundQuotient num (2 ^ scaleFor num)) := by
    rw [roundUnits, Nat.div_one, Nat.one_mul]
    rfl
  rcases roundQuotient_cases num (Nat.two_pow_pos (scaleFor num)) with down | ⟨up, rest⟩
  · exact .inl (by rw [rounded, down, truncated])
  · refine .inr ⟨by rw [rounded, up, truncated, Nat.add_assoc], ?_⟩
    have parts := Nat.div_add_mod' num (2 ^ scaleFor num)
    rw [unitsOf_truncated]
    omega

/-- What stands for at most as many units is at most what they are rounded to. -/
theorem le_roundUnits {num k : Nat} (bounded : k ≤ infiniteMagnitude) (low : unitsOf k ≤ num) : k ≤ roundUnits num 1 := by
  have under : unitsOf k < unitsOf (truncated num + 1) := by
    rw [unitsOf_truncated_succ, ← Nat.div_lt_iff_lt_mul (Nat.two_pow_pos _)]
    exact (Nat.div_le_div_right low).trans_lt (Nat.lt_succ_self _)
  have found : k < truncated num + 1 := unitsOf_strictMono.lt_iff_lt.mp under
  rcases roundUnits_cases num with down | ⟨up, -⟩ <;> omega

/-- What stands for at least as many units is at least what they are rounded to. -/
theorem roundUnits_le {num k : Nat} (high : num ≤ unitsOf k) : roundUnits num 1 ≤ k := by
  rcases roundUnits_cases num with down | ⟨up, inexact⟩
  · have under : unitsOf (truncated num) ≤ unitsOf k := by
      rw [unitsOf_truncated]
      exact (Nat.div_mul_le_self _ _).trans high
    have found := unitsOf_strictMono.le_iff_le.mp under
    omega
  · have found : truncated num < k := unitsOf_strictMono.lt_iff_lt.mp (inexact.trans_le high)
    omega

theorem rank_ofMagnitude {magnitude : Nat} (fits : magnitude ≤ infiniteMagnitude) (negative : Bool) :
    (ofMagnitude negative magnitude).rank = if negative then -(magnitude : Int) else magnitude := by
  have half : twoPow 63 = 9223372036854775808 := rfl
  have most : infiniteMagnitude = 9218868437227405312 := rfl
  have word : (ofMagnitude negative magnitude).bits.toNat = if negative then twoPow 63 + magnitude else magnitude := by
    refine UInt64.toNat_ofNat_of_lt' ?_
    rw [half, UInt64.size]
    split <;> omega
  rw [rank, isNegative, Binary64.magnitude, word, half]
  cases negative <;> simp <;> omega

/-- The rank of an integer as a float. -/
theorem rank_ofInt (i : Int) :
    (ofInt i).rank = if i < 0 then -(roundUnits (i.natAbs * one) 1 : Int) else roundUnits (i.natAbs * one) 1 := by
  have bounded : roundUnits (i.natAbs * one) 1 ≤ infiniteMagnitude := Nat.min_le_left _ _
  rw [ofInt, ofRatio, rank_ofMagnitude bounded]
  simp only [decide_eq_true_eq]

variable {x : Binary64} {i : Int}

theorem magnitude_le (number : x.isNaN = false) : x.magnitude ≤ infiniteMagnitude := by
  rw [isNaN, decide_eq_false_iff_not] at number
  exact Nat.not_lt.mp number

theorem units_ofInt (i : Int) :
    i * one = if i < 0 then -((i.natAbs * one : Nat) : Int) else ((i.natAbs * one : Nat) : Int) := by
  rw [Nat.cast_mul, ← Int.neg_mul]
  split
  · rw [Int.ofNat_natAbs_of_nonpos (by omega), Int.neg_neg]
  · rw [Int.natAbs_of_nonneg (by omega)]

/-- An integer is rounded to at least every float that it is at least, and to at most every float that it is at
most. -/
theorem rank_ofInt_between (number : x.isNaN = false) :
    (x.signedUnits ≤ i * one → x.rank ≤ (ofInt i).rank) ∧ (i * one ≤ x.signedUnits → (ofInt i).rank ≤ x.rank) := by
  have bounded := magnitude_le number
  have grows := unitsOf_strictMono.le_apply (x := x.magnitude)
  rw [units_ofInt, signedUnits, units_eq, rank_ofInt, rank]
  generalize i.natAbs * one = units at *
  have down : units ≤ unitsOf x.magnitude → roundUnits units 1 ≤ x.magnitude := roundUnits_le
  have up : unitsOf x.magnitude ≤ units → x.magnitude ≤ roundUnits units 1 := le_roundUnits bounded
  by_cases negative : i < 0 <;> by_cases below : x.isNegative = true <;>
    simp only [negative, below, if_true, if_false, Bool.false_eq_true] <;> omega

/-- No float equals the integer. -/
def Lossy (i : Int64) : Prop := ∀ x : Binary64, x.toInt64? ≠ some i

/-- A float that equals an integer is the one that it is rounded to. -/
theorem rank_of_toInt64? {i : Int64} (equal : x.toInt64? = some i) : x.rank = (ofInt i.toInt).rank := by
  obtain ⟨finite, whole⟩ := toInt64?_eq_some_iff.mp equal
  obtain ⟨low, high⟩ := rank_ofInt_between (i := i.toInt) (isNaN_of_isFinite finite)
  exact Int.le_antisymm (low whole.le) (high whole.ge)

theorem lossy_iff {i : Int64} : Lossy i ↔ (ofInt i.toInt).toInt64? ≠ some i := by
  refine ⟨fun lossy => lossy _, fun rounded x equal => rounded ?_⟩
  rw [← toInt64?_congr (rank_of_toInt64? equal), equal]

instance (i : Int64) : Decidable (Lossy i) := decidable_of_iff _ lossy_iff.symm

/-- A significand of 53 bits needs no scale beyond the one it has. -/
theorem scaleFor_le {significand : Nat} (small : significand < 2 ^ 53) (scale : Nat) :
    scaleFor (significand * 2 ^ scale) ≤ scale := by
  rw [scaleFor]
  by_cases zero : significand * 2 ^ scale = 0
  · rw [zero]
    exact Nat.zero_le _
  · have within : significand * 2 ^ scale < 2 ^ (53 + scale) := by
      rw [Nat.pow_add]
      exact Nat.mul_lt_mul_of_pos_right small (Nat.two_pow_pos _)
    have bits := (Nat.log2_lt zero).mpr within
    omega

theorem unitsOf_truncated_of_small {significand : Nat} (small : significand < 2 ^ 53) (scale : Nat) :
    unitsOf (truncated (significand * 2 ^ scale)) = significand * 2 ^ scale := by
  rw [unitsOf_truncated]
  exact Nat.div_mul_cancel ((Nat.pow_dvd_pow 2 (scaleFor_le small scale)).mul_left significand)

/-- A significand under few enough scales is a finite magnitude. -/
theorem truncated_lt {significand scale : Nat} (small : significand < 2 ^ 53) (few : scale ≤ 2044) :
    truncated (significand * 2 ^ scale) < infiniteMagnitude := by
  have scaled := scaleFor_le small scale
  have bits := significand_lt (significand * 2 ^ scale)
  have most : infiniteMagnitude = 2047 * 2 ^ 52 := rfl
  rw [truncated]
  omega

theorem unitsAt_natCast (magnitude : Nat) : unitsAt (magnitude : Int) = (unitsOf magnitude : Int) := rfl

/-- Up to `2 ^ 53`, which is half as great a significand under one scale more, an integer has as many units as a finite
magnitude stands for. -/
theorem exists_magnitude {n : Nat} (small : n ≤ 2 ^ 53) : ∃ k, k < infiniteMagnitude ∧ unitsOf k = n * one := by
  have power (scale : Nat) : twoPow scale = 2 ^ scale := rfl
  obtain ⟨scale, few, unit⟩ : ∃ scale ≤ 1074, one = 2 ^ scale := ⟨1074, le_rfl, power 1074⟩
  rw [unit]
  rcases small.lt_or_eq with less | rfl
  · exact ⟨_, truncated_lt less (by omega), unitsOf_truncated_of_small less scale⟩
  · have half : 2 ^ 52 < 2 ^ 53 := by decide
    have twice : 2 ^ 53 * 2 ^ scale = 2 ^ 52 * 2 ^ (scale + 1) := by
      rw [Nat.pow_succ]
      omega
    rw [twice]
    exact ⟨_, truncated_lt half (by omega), unitsOf_truncated_of_small half (scale + 1)⟩

/-- An integer that no float equals has more than 53 bits. -/
theorem Lossy.large {i : Int64} (lossy : Lossy i) : 2 ^ 53 < i.toInt.natAbs := by
  by_contra small
  obtain ⟨k, finite, units⟩ := exists_magnitude (Nat.not_lt.mp small)
  have placed := rank_ofMagnitude finite.le (decide (i.toInt < 0))
  apply lossy (ofMagnitude (decide (i.toInt < 0)) k)
  rw [toInt64?_eq_some_iff, isFinite, ← natAbs_rank, signedUnits_eq, placed, units_ofInt, ← units]
  simp only [decide_eq_true_eq]
  split
  · rw [Int.natAbs_neg, Int.natAbs_natCast, unitsAt_neg]
    exact ⟨finite, rfl⟩
  · rw [Int.natAbs_natCast, unitsAt_natCast]
    exact ⟨finite, rfl⟩

end Binary64

end CoopScript
