import CoopScript.Proofs.RoundedIntegers
import CoopScript.Script.Operator

/-! Comparisons of numbers. Numbers of one form are compared exactly. An integer and a float are equal if their exact
values are, but which is less is asked of the float that the integer is rounded to. Rounding passes no float, so the
answers are those of the exact values for every pair but one: an integer that no float equals, and the float that it is
rounded to. -/

namespace CoopScript

namespace Binary64

/-- The units that a rank stands for, the infinities beyond all others. -/
def extendedAt (rank : Int) : EInt :=
  if rank ≤ -infiniteMagnitude then ⊥ else if infiniteMagnitude ≤ rank then ⊤ else unitsAt rank

/-- The exact value of a number that is no NaN. -/
def extended (x : Binary64) : EInt :=
  if x.isFinite then (x.signedUnits : EInt) else if x.isNegative then ⊥ else ⊤

/-- The exact value of an integer. -/
def extendedInt (i : Int) : EInt := WithBotTop.coe (i * one)

theorem extended_eq (x : Binary64) : x.extended = extendedAt x.rank := by
  have positive : (0 : Int) < infiniteMagnitude := by decide
  rw [extended, extendedAt, signedUnits_eq, isFinite, rank]
  simp only [decide_eq_true_eq]
  by_cases negative : x.isNegative = true <;> by_cases finite : x.magnitude < infiniteMagnitude
  · rw [if_pos negative, if_pos finite, if_neg (by omega), if_neg (by omega)]
  · rw [if_pos negative, if_neg finite, if_pos negative, if_pos (by omega)]
  · rw [if_neg negative, if_pos finite, if_neg (by omega), if_neg (by omega)]
  · rw [if_neg negative, if_neg finite, if_neg negative, if_neg (by omega), if_pos (by omega)]

theorem rank_mem {x : Binary64} (number : x.isNaN = false) :
    x.rank ∈ Set.Icc (-(infiniteMagnitude : Int)) infiniteMagnitude := by
  have bounded := magnitude_le number
  rw [Set.mem_Icc, rank]
  split <;> omega

theorem extendedAt_strictMonoOn : StrictMonoOn extendedAt (Set.Icc (-(infiniteMagnitude : Int)) infiniteMagnitude) := by
  rintro a ⟨low, -⟩ b ⟨-, high⟩ below
  rw [extendedAt, extendedAt, if_neg (by omega : ¬ b ≤ -infiniteMagnitude),
    if_neg (by omega : ¬ (infiniteMagnitude : Int) ≤ a)]
  split <;> split
  · exact bot_lt_top
  · exact bot_lt_iff_ne_bot.mpr (WithBotTop.coe_ne_bot _)
  · exact lt_top_iff_ne_top.mpr (WithBotTop.coe_ne_top _)
  · exact WithBotTop.coe_lt_coe.mpr (unitsAt_strictMono below)

variable {x y : Binary64} {i : Int64}

/-- Floats are compared as their exact values are. -/
theorem cmp_extended (number : x.isNaN = false) (number' : y.isNaN = false) :
    cmp x.extended y.extended = compare x.rank y.rank := by
  rw [extended_eq, extended_eq, extendedAt_strictMonoOn.cmp_map_eq (rank_mem number) (rank_mem number'), cmp_eq_compare]

theorem isNaN_ofInt (i : Int) : (ofInt i).isNaN = false := by
  have bounded : roundUnits (i.natAbs * one) 1 ≤ infiniteMagnitude := Nat.min_le_left _ _
  rw [isNaN, decide_eq_false_iff_not, ← natAbs_rank, rank_ofInt]
  split <;> omega

theorem extendedInt_eq_iff : extendedInt i.toInt = x.extended ↔ x.toInt64? = some i := by
  rw [toInt64?_eq_some_iff, extendedInt, extended]
  by_cases finite : x.isFinite = true
  · rw [if_pos finite, WithBotTop.coe_injective.eq_iff, and_iff_right finite, eq_comm]
  · rw [if_neg finite]
    refine iff_of_false ?_ fun whole => finite whole.1
    split
    · exact WithBotTop.coe_ne_bot _
    · exact WithBotTop.coe_ne_top _

/-- Rounding passes no float. -/
theorem extendedInt_between {i : Int} (number : x.isNaN = false) :
    (x.extended ≤ extendedInt i → x.rank ≤ (ofInt i).rank) ∧
      (extendedInt i ≤ x.extended → (ofInt i).rank ≤ x.rank) := by
  obtain ⟨low, high⟩ := rank_mem (isNaN_ofInt i)
  have between := rank_ofInt_between (i := i) number
  rw [extended_eq, extendedInt, extendedAt]
  split
  · exact ⟨fun _ => by omega, fun below => absurd (le_bot_iff.mp below) (WithBotTop.coe_ne_bot _)⟩
  · split
    · exact ⟨fun above => absurd (top_le_iff.mp above) (WithBotTop.coe_ne_top _), fun _ => by omega⟩
    · rw [← signedUnits_eq, WithBotTop.coe_le_coe, WithBotTop.coe_le_coe]
      exact between

theorem extendedInt_strictMono : StrictMono extendedInt :=
  fun _ _ below => WithBotTop.coe_lt_coe.mpr (Int.mul_lt_mul_of_pos_right below Binary64.one_pos)

/-- Only zero is rounded to zero. -/
theorem rank_ofInt_ne_zero {i : Int} (nonzero : i ≠ 0) : (ofInt i).rank ≠ 0 := by
  have units : 0 < i.natAbs * one := Nat.mul_pos (Int.natAbs_pos.mpr nonzero) (Int.natCast_pos.mp one_pos)
  have least : unitsOf 1 = 1 := rfl
  have positive : 1 ≤ roundUnits (i.natAbs * one) 1 := le_roundUnits (by decide) (least.trans_le units)
  rw [rank_ofInt]
  split <;> omega

/-- A float that an integer is rounded to equals it, or no float does. -/
theorem rank_ofInt_eq_iff (number : x.isNaN = false) :
    (ofInt i.toInt).rank = x.rank ↔ x.toInt64? = some i ∨ Lossy i ∧ x = ofInt i.toInt := by
  constructor
  · intro rounded
    by_cases lossy : Lossy i
    · -- one rank is one word unless it is that of zero, and zero is not lossy
      have large := Lossy.large lossy
      have nonzero : (ofInt i.toInt).rank ≠ 0 := rank_ofInt_ne_zero (by omega)
      exact .inr ⟨lossy, (eq_of_rank rounded nonzero).symm⟩
    · rw [lossy_iff, not_not] at lossy
      exact .inl ((toInt64?_congr rounded).symm.trans lossy)
  · rintro (equal | ⟨-, rfl⟩)
    · exact (rank_of_toInt64? equal).symm
    · rfl

/-- The float that an integer is rounded to is compared as the integer is, except with itself if it does not equal the
integer. -/
theorem compare_ofInt (number : x.isNaN = false) (clear : ¬ (Lossy i ∧ x = ofInt i.toInt)) :
    compare (ofInt i.toInt).rank x.rank = cmp (extendedInt i.toInt) x.extended := by
  obtain ⟨low, high⟩ := extendedInt_between number
  have equal : (ofInt i.toInt).rank = x.rank ↔ extendedInt i.toInt = x.extended := by
    rw [rank_ofInt_eq_iff number, extendedInt_eq_iff, or_iff_left clear]
  rcases lt_trichotomy (extendedInt i.toInt) x.extended with below | same | above
  · have less := lt_of_le_of_ne (high below.le) (equal.not.mpr below.ne)
    rw [(cmp_eq_lt_iff _ _).mpr below, compare_lt_iff_lt.mpr less]
  · rw [(cmp_eq_eq_iff _ _).mpr same, compare_eq_iff_eq.mpr (equal.mpr same)]
  · have more := lt_of_le_of_ne (low above.le) (Ne.symm (equal.not.mpr above.ne'))
    rw [(cmp_eq_gt_iff _ _).mpr above, compare_gt_iff_gt.mpr more]

end Binary64

namespace Value

open Binary64

/-- The exact value of a number that is no NaN. -/
def extended? : Value → Option EInt
  | int i => some (extendedInt i.toInt)
  | float x => if x.isNaN then none else some x.extended
  | _ => none

/-- An integer that no float equals, and the float that it is rounded to. -/
inductive Blurred : Value → Value → Prop where
  | left {i : Int64} (lossy : Lossy i) : Blurred (.int i) (.float (ofInt i.toInt))
  | right {i : Int64} (lossy : Lossy i) : Blurred (.float (ofInt i.toInt)) (.int i)

/-- The comparisons of two numbers answer that the one is less, that they are equal, or that the other is less, and
nothing else. -/
structure Answers (a b : Value) (o : Ordering) : Prop where
  lt : compareValues .lt a b = .ok (o == .lt)
  eq : compareValues .eq a b = .ok (o == .eq)
  gt : compareValues .lt b a = .ok (o == .gt)
  le : compareValues .le a b = .ok (o == .lt || o == .eq)

variable {a b : Value} {m n : EInt} {o : Ordering}

theorem Blurred.symm (blurred : Blurred a b) : Blurred b a := by
  cases blurred with
  | left lossy => exact .right lossy
  | right lossy => exact .left lossy

theorem extended?_float {x : Binary64} (exactly : (float x).extended? = some n) : x.isNaN = false ∧ x.extended = n := by
  rw [extended?] at exactly
  split at exactly
  · cases exactly
  · next number => exact ⟨Bool.eq_false_iff.mpr number, Option.some.inj exactly⟩

/-- Numbers are equal in scripts if their exact values are. -/
theorem same_iff_extended (left : a.extended? = some m) (right : b.extended? = some n) : a.same b = true ↔ m = n := by
  cases a with
  | int i =>
    cases left
    cases b with
    | int j =>
      cases right
      rw [same, beq_iff_eq, extendedInt_strictMono.injective.eq_iff, Int64.toInt_inj]
    | float y =>
      obtain ⟨-, rfl⟩ := extended?_float right
      rw [same, beq_iff_eq, extendedInt_eq_iff]
    | _ => cases right
  | float x =>
    obtain ⟨number, rfl⟩ := extended?_float left
    cases b with
    | int j =>
      cases right
      rw [same, beq_iff_eq, eq_comm (a := x.extended), extendedInt_eq_iff]
    | float y =>
      obtain ⟨number', rfl⟩ := extended?_float right
      rw [same, same_iff, and_iff_right number, and_iff_right number', ← cmp_eq_eq_iff, ← cmp_eq_eq_iff x.extended,
        cmp_extended number number', cmp_eq_compare]
    | _ => cases right
  | _ => cases left

theorem compare?_eq {x y : Binary64} (number : x.isNaN = false) (number' : y.isNaN = false) :
    x.compare? y = some (compare x.rank y.rank) := by
  rw [compare?, number, number']
  rfl

/-- Numbers have the order of their exact values, unless rounding makes one of the other. -/
theorem order_of_clear (left : a.extended? = some m) (right : b.extended? = some n) (clear : ¬ Blurred a b) :
    order a b = .ok (some (cmp m n)) := by
  cases a with
  | int i =>
    cases left
    cases b with
    | int j =>
      cases right
      rw [order, extendedInt_strictMono.cmp_map_eq, cmp_eq_compare]
    | float y =>
      obtain ⟨number, rfl⟩ := extended?_float right
      rw [order, compare?_eq (isNaN_ofInt _) number, compare_ofInt number]
      rintro ⟨lossy, rfl⟩
      exact clear (.left lossy)
    | _ => cases right
  | float x =>
    obtain ⟨number, rfl⟩ := extended?_float left
    cases b with
    | int j =>
      cases right
      -- from the other side the integer comes first
      rw [order, compare?_eq number (isNaN_ofInt _), ← cmp_eq_compare, ← cmp_swap, cmp_eq_compare, compare_ofInt number,
        cmp_swap]
      rintro ⟨lossy, rfl⟩
      exact clear (.right lossy)
    | float y =>
      obtain ⟨number', rfl⟩ := extended?_float right
      rw [order, compare?_eq number number', cmp_extended number number']
    | _ => cases right
  | _ => cases left

/-- Rounding makes one of the other, and hides which of them is less. -/
theorem Blurred.order (blurred : Blurred a b) : order a b = .ok (some .eq) := by
  cases blurred <;>
    rw [CoopScript.order, compare?_eq (isNaN_ofInt _) (isNaN_ofInt _), compare_eq_iff_eq.mpr rfl]

theorem Blurred.same (blurred : Blurred a b) : a.same b = false := by
  cases blurred with
  | left lossy | right lossy => exact beq_eq_false_iff_ne.mpr (lossy _)

theorem compareValues_lt_of_order (ordered : order a b = .ok (some o)) : compareValues .lt a b = .ok (o == .lt) := by
  rw [compareValues, ordered]
  rfl

theorem compareValues_le_of_order (ordered : order a b = .ok (some o)) :
    compareValues .le a b = .ok (o == .lt || o == .eq) := by
  rw [compareValues, ordered]
  rfl

/-- Orders that are each other's reverse, and equality where they say so, make one answer. -/
theorem answers_of_order (ordered : order a b = .ok (some o)) (reversed : order b a = .ok (some o.swap))
    (same : a.same b = (o == .eq)) : Answers a b o where
  lt := compareValues_lt_of_order ordered
  eq := congrArg Except.ok same
  gt := by
    rw [compareValues_lt_of_order reversed]
    cases o <;> rfl
  le := compareValues_le_of_order ordered

/-- Two numbers are less, equal or greater as their exact values are, unless one is an integer that no float equals, and
so has more than 53 bits, and the other the float that it is rounded to. Of these neither is less than the other, they
are not equal, and yet each is at most the other. -/
theorem comparisons_ordered_iff (left : a.extended? = some m) (right : b.extended? = some n) :
    ((∃ o, Answers a b o) ↔ ¬ Blurred a b) ∧ (¬ Blurred a b → Answers a b (cmp m n)) ∧
      (Blurred a b → compareValues .lt a b = .ok false ∧ compareValues .eq a b = .ok false ∧
        compareValues .lt b a = .ok false ∧ compareValues .le a b = .ok true ∧ compareValues .le b a = .ok true) ∧
      ∀ i, Lossy i → 2 ^ 53 < i.toInt.natAbs := by
  have clear (apart : ¬ Blurred a b) : Answers a b (cmp m n) := by
    refine answers_of_order (order_of_clear left right apart) ?_ ?_
    · rw [cmp_swap]
      exact order_of_clear right left (mt Blurred.symm apart)
    · rw [Bool.eq_iff_iff, same_iff_extended left right, beq_iff_eq, cmp_eq_eq_iff]
  have blurred (pair : Blurred a b) : compareValues .lt a b = .ok false ∧ compareValues .eq a b = .ok false ∧
      compareValues .lt b a = .ok false ∧ compareValues .le a b = .ok true ∧ compareValues .le b a = .ok true :=
    ⟨compareValues_lt_of_order pair.order, congrArg Except.ok pair.same, compareValues_lt_of_order pair.symm.order,
      compareValues_le_of_order pair.order, compareValues_le_of_order pair.symm.order⟩
  refine ⟨⟨?_, fun apart => ⟨_, clear apart⟩⟩, clear, blurred, fun _ => Lossy.large⟩
  rintro ⟨o, answers⟩ pair
  obtain ⟨less, equal, greater, -⟩ := blurred pair
  rw [answers.lt] at less
  rw [answers.eq] at equal
  rw [answers.gt] at greater
  cases o <;> contradiction

/-- An integer that no float equals is less than the float above it, and at most the float below it, which it is rounded
to. -/
theorem comparisons_ordered_iff_neighbours :
    Answers (.int 9007199254740993) (.float ⟨0x4340000000000001⟩) .lt ∧
      compareValues .le (.int 9007199254740993) (.float ⟨0x4340000000000000⟩) = .ok true := by
  have middle : (int 9007199254740993).extended? = some (extendedInt 9007199254740993) := rfl
  have above : (float ⟨0x4340000000000001⟩).extended? = some (extendedInt 9007199254740994) := by
    rw [extended?, if_neg (by decide +kernel)]
    exact congrArg some (extendedInt_eq_iff (i := 9007199254740994).mpr (by decide +kernel)).symm
  have below : (float ⟨0x4340000000000000⟩).extended? = some (extendedInt 9007199254740992) := by
    rw [extended?, if_neg (by decide +kernel)]
    exact congrArg some (extendedInt_eq_iff (i := 9007199254740992).mpr (by decide +kernel)).symm
  have less : cmp (extendedInt 9007199254740993) (extendedInt 9007199254740994) = .lt :=
    (cmp_eq_lt_iff _ _).mpr (extendedInt_strictMono (by decide))
  have apart : ¬ Blurred (.int 9007199254740993) (.float ⟨0x4340000000000001⟩) :=
    fun pair => absurd pair.order (by decide +kernel)
  have rounded : ofInt 9007199254740993 = ⟨0x4340000000000000⟩ := by decide +kernel
  have lossy : Lossy 9007199254740993 := by decide +kernel
  have pair : Blurred (.int 9007199254740993) (.float ⟨0x4340000000000000⟩) := rounded ▸ Blurred.left lossy
  exact ⟨less ▸ (comparisons_ordered_iff middle above).2.1 apart, ((comparisons_ordered_iff middle below).2.2.1 pair).2.2.2.1⟩

/-- Of an integer and the float below it none is less and they are not equal, and yet the one is at most the other. -/
theorem integer_unordered :
    (compareValues .lt (.int 9007199254740993) (.float ⟨0x4340000000000000⟩) = .ok false ∧
      compareValues .eq (.int 9007199254740993) (.float ⟨0x4340000000000000⟩) = .ok false ∧
      compareValues .lt (.float ⟨0x4340000000000000⟩) (.int 9007199254740993) = .ok false ∧
      compareValues .le (.int 9007199254740993) (.float ⟨0x4340000000000000⟩) = .ok true) ∧
    ¬ ∃ o, Answers (.int 9007199254740993) (.float ⟨0x4340000000000000⟩) o := by
  refine ⟨by decide +kernel, ?_⟩
  rintro ⟨o, less, equal, greater, -⟩
  revert less equal greater
  cases o <;> decide +kernel

end Value

end CoopScript
