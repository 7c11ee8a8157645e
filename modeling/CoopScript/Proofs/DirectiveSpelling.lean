import CoopScript.Proofs.LibraryQuestions

/-! The grammar of directives. What stands between a percent sign and the end of a conversion letter is
spelled by flags, a width and a precision, and it is read by taking as many flags and as many digits as
there are. No flag starts a width and no digit is a conversion letter, so a spelling can be read in one way
only. A field is limited by its value and not by its length, so zeros in front of a precision are free. -/

namespace CoopScript

namespace Formatting

inductive Flag where
  | left
  | plus
  | space
  | zero
  | alternate
  deriving DecidableEq

def Flag.char : Flag → Char
  | left => '-'
  | plus => '+'
  | space => ' '
  | zero => '0'
  | alternate => '#'

namespace Flags

def has (f : Flags) : Flag → Bool
  | .left => f.left
  | .plus => f.plus
  | .space => f.space
  | .zero => f.zero
  | .alternate => f.alternate

def adding (f : Flags) : Flag → Flags
  | .left => { f with left := true }
  | .plus => { f with plus := true }
  | .space => { f with space := true }
  | .zero => { f with zero := true }
  | .alternate => { f with alternate := true }

/-- The flags that are in a list. -/
def of (written : List Flag) : Flags where
  left := decide (.left ∈ written)
  plus := decide (.plus ∈ written)
  space := decide (.space ∈ written)
  zero := decide (.zero ∈ written)
  alternate := decide (.alternate ∈ written)

theorem ext_has {f g : Flags} (same : ∀ flag, f.has flag = g.has flag) : f = g := by
  obtain ⟨⟩ := f
  obtain ⟨⟩ := g
  rw [Flags.mk.injEq]
  exact ⟨same .left, same .plus, same .space, same .zero, same .alternate⟩

@[simp] theorem has_adding (f : Flags) (added flag : Flag) :
    (f.adding added).has flag = (decide (flag = added) || f.has flag) := by
  cases added <;> cases flag <;> rfl

@[simp] theorem has_of (written : List Flag) (flag : Flag) : (of written).has flag = decide (flag ∈ written) := by
  cases flag <;> rfl

theorem has_foldl_adding (f : Flags) (written : List Flag) (flag : Flag) :
    (written.foldl adding f).has flag = (f.has flag || decide (flag ∈ written)) := by
  induction written generalizing f with
  | nil => simp
  | cons first rest ih =>
    rw [List.foldl_cons, ih, has_adding]
    by_cases same : flag = first <;> simp [same]

theorem foldl_adding_none (written : List Flag) : written.foldl adding {} = of written := by
  apply ext_has
  intro flag
  rw [has_foldl_adding, has_of]
  cases flag <;> exact Bool.false_or _

theorem add?_char (f : Flags) (flag : Flag) :
    f.add? flag.char = some (if f.has flag then .error .repeatedFlags else .ok (f.adding flag)) := by
  cases flag <;> rfl

theorem add?_other (f : Flags) {c : Char} (other : ∀ flag : Flag, flag.char ≠ c) : f.add? c = none := by
  unfold add?
  split
  · exact absurd rfl (other .left)
  · exact absurd rfl (other .plus)
  · exact absurd rfl (other .space)
  · exact absurd rfl (other .zero)
  · exact absurd rfl (other .alternate)
  · rfl

end Flags

/-- The text does not start with a flag. -/
def Unflagged (text : List Char) : Prop := ∀ c ∈ text.head?, ∀ flag : Flag, flag.char ≠ c

/-- The text does not start with a digit. -/
def Undigited (text : List Char) : Prop := ∀ c ∈ text.head?, c.isDigit = false

section Reading

variable {f flags : Flags} {written : List Flag} {text rest digits : List Char} {value field : Option Nat}

theorem readFlags_written (distinct : written.Nodup) (fresh : ∀ flag ∈ written, f.has flag = false)
    (stops : Unflagged rest) : readFlags f (written.map Flag.char ++ rest) = .ok (written.foldl Flags.adding f, rest) := by
  induction written generalizing f with
  | nil =>
    cases rest with
    | nil => rfl
    | cons c rest =>
      have none := Flags.add?_other f (stops c rfl)
      simp only [List.map_nil, List.nil_append, readFlags, none]
      rfl
  | cons flag later ih =>
    obtain ⟨apart, distinct⟩ := List.nodup_cons.mp distinct
    have unset := fresh flag List.mem_cons_self
    have added := f.add?_char flag
    rw [unset, if_neg Bool.false_ne_true] at added
    simp only [List.map_cons, List.cons_append, readFlags, added, List.foldl_cons]
    apply ih distinct
    intro other member
    have different : other ≠ flag := by
      rintro rfl
      exact apart member
    rw [Flags.has_adding, decide_eq_false different, Bool.false_or]
    exact fresh other (List.mem_cons_of_mem _ member)

/-- As many flags are read as there are, each of them once. -/
theorem written_of_readFlags (read : readFlags f text = .ok (flags, rest)) :
    ∃ written : List Flag, written.Nodup ∧ (∀ flag ∈ written, f.has flag = false) ∧
      text = written.map Flag.char ++ rest ∧ flags = written.foldl Flags.adding f ∧ Unflagged rest := by
  induction text generalizing f with
  | nil =>
    cases read
    exact ⟨[], .nil, by simp, rfl, rfl, by simp [Unflagged]⟩
  | cons c text ih =>
    by_cases flagged : ∃ flag : Flag, flag.char = c
    · obtain ⟨flag, rfl⟩ := flagged
      simp only [readFlags, Flags.add?_char] at read
      cases unset : f.has flag with
      | true =>
        rw [unset] at read
        cases read
      | false =>
        rw [unset] at read
        obtain ⟨written, distinct, fresh, rfl, rfl, stops⟩ := ih read
        refine ⟨flag :: written, List.nodup_cons.mpr ⟨fun member => ?_, distinct⟩, ?_, rfl, rfl, stops⟩
        · have again := fresh flag member
          rw [Flags.has_adding, decide_eq_true rfl, Bool.true_or] at again
          cases again
        · intro other member
          obtain rfl | member := List.mem_cons.mp member
          · exact unset
          · have both := fresh other member
            rw [Flags.has_adding, Bool.or_eq_false_iff] at both
            exact both.2
    · have other (flag : Flag) : flag.char ≠ c := fun same => flagged ⟨flag, same⟩
      simp only [readFlags, f.add?_other other] at read
      cases read
      refine ⟨[], .nil, by simp, rfl, rfl, ?_⟩
      rintro d ⟨⟩
      exact other

theorem readFlags_error {e : ScriptError} (failed : readFlags f text = .error e) : e = .repeatedFlags := by
  induction text generalizing f with
  | nil => cases failed
  | cons c text ih =>
    by_cases flagged : ∃ flag : Flag, flag.char = c
    · obtain ⟨flag, rfl⟩ := flagged
      simp only [readFlags, Flags.add?_char] at failed
      cases unset : f.has flag with
      | true =>
        rw [unset] at failed
        cases failed
        rfl
      | false =>
        rw [unset] at failed
        exact ih failed
    · simp only [readFlags, f.add?_other fun flag same => flagged ⟨flag, same⟩] at failed
      cases failed

/-- What a field comes to when digits follow those that were read. -/
def fieldFrom (value : Option Nat) (digits : List Char) : Option Nat :=
  if digits = [] then value else some (Nat.ofDigitChars 10 digits (value.getD 0))

theorem fieldFrom_cons (value : Option Nat) (c : Char) (digits : List Char) :
    fieldFrom value (c :: digits) = fieldFrom (some (value.getD 0 * 10 + (c.toNat - 48))) digits := by
  rw [Nat.mul_comm]
  cases digits <;> rfl

theorem ofDigitChars_cons_getD (value : Option Nat) (c : Char) (digits : List Char) :
    Nat.ofDigitChars 10 (c :: digits) (value.getD 0) =
      Nat.ofDigitChars 10 digits ((some (value.getD 0 * 10 + (c.toNat - 48))).getD 0) := by
  rw [Nat.ofDigitChars_cons, Nat.mul_comm]
  rfl

/-- More digits never make a number less. -/
theorem le_ofDigitChars (digits : List Char) (value : Nat) : value ≤ Nat.ofDigitChars 10 digits value := by
  rw [Nat.ofDigitChars_eq_ofDigitChars_zero]
  exact Nat.le_add_right_of_le (Nat.le_mul_of_pos_left value (Nat.pow_pos (by decide)))

theorem readField_digits (allDigits : ∀ c ∈ digits, c.isDigit = true)
    (bounded : Nat.ofDigitChars 10 digits (value.getD 0) < fieldLimit) (stops : Undigited rest) :
    readField value (digits ++ rest) = .ok (fieldFrom value digits, rest) := by
  induction digits generalizing value with
  | nil =>
    cases rest with
    | nil => rfl
    | cons c rest =>
      have other : isDigit c = false := stops c rfl
      simp [readField, other, fieldFrom]
  | cons c digits ih =>
    obtain ⟨digit, others⟩ := List.forall_mem_cons.mp allDigits
    have digit : isDigit c = true := digit
    rw [ofDigitChars_cons_getD] at bounded
    have small := Nat.lt_of_le_of_lt (le_ofDigitChars digits _) bounded
    rw [List.cons_append, readField, if_pos digit]
    dsimp only
    rw [Option.getD_some] at small
    rw [if_neg (Nat.not_le_of_lt small), fieldFrom_cons]
    exact ih others bounded

/-- As many digits are read as there are, and the number they make is within the limit. -/
theorem digits_of_readField (small : value.getD 0 < fieldLimit) (read : readField value text = .ok (field, rest)) :
    ∃ digits, (∀ c ∈ digits, c.isDigit = true) ∧ Nat.ofDigitChars 10 digits (value.getD 0) < fieldLimit ∧
      text = digits ++ rest ∧ field = fieldFrom value digits ∧ Undigited rest := by
  induction text generalizing value with
  | nil =>
    cases read
    exact ⟨[], by simp, small, rfl, rfl, by simp [Undigited]⟩
  | cons c text ih =>
    rw [readField] at read
    split at read
    · next digit =>
      dsimp only at read
      split at read
      · cases read
      · next below =>
        have small : (some (value.getD 0 * 10 + (c.toNat - 48))).getD 0 < fieldLimit := Nat.lt_of_not_le below
        obtain ⟨digits, allDigits, bounded, rfl, rfl, stops⟩ := ih small read
        refine ⟨c :: digits, List.forall_mem_cons.mpr ⟨digit, allDigits⟩, ?_, rfl, (fieldFrom_cons ..).symm, stops⟩
        rw [ofDigitChars_cons_getD]
        exact bounded
    · next other =>
      cases read
      refine ⟨[], by simp, small, rfl, rfl, ?_⟩
      rintro d ⟨⟩
      exact eq_false_of_ne_true other

theorem readField_error {e : ScriptError} (failed : readField value text = .error e) : e = .fieldTooLong := by
  induction text generalizing value with
  | nil => cases failed
  | cons c text ih =>
    rw [readField] at failed
    split at failed
    · dsimp only at failed
      split at failed
      · cases failed
        rfl
      · exact ih failed
    · cases failed

/-- A number is within the limit if it has at most two digits, zeros in front of them aside. -/
theorem ofDigitChars_lt_fieldLimit_iff (allDigits : ∀ c ∈ digits, c.isDigit = true) :
    Nat.ofDigitChars 10 digits 0 < fieldLimit ↔ (digits.dropWhile (· == '0')).length ≤ 2 := by
  induction digits with
  | nil => decide
  | cons c digits ih =>
    obtain ⟨digit, others⟩ := List.forall_mem_cons.mp allDigits
    rw [Nat.ofDigitChars_cons, Nat.mul_zero, Nat.zero_add]
    by_cases zero : c = '0'
    · subst zero
      exact ih others
    · rw [List.dropWhile_cons_of_neg (by simpa using zero), Nat.ofDigitChars_eq_ofDigitChars_zero, List.length_cons]
      have between : 48 ≤ c.toNat ∧ c.toNat ≤ 57 := Char.isDigit_iff_toNat.mp digit
      have positive : c.toNat ≠ 48 := fun same => zero (Char.toNat_inj.mp same)
      change _ * (c.toNat - 48) + _ < 100 ↔ _
      match digits with
      | [] =>
        simp only [List.length_nil, Nat.pow_zero, Nat.ofDigitChars_nil]
        omega
      | [d] =>
        have last : d.toNat ≤ 57 := (Char.isDigit_iff_toNat.mp (others d List.mem_cons_self)).2
        have value : Nat.ofDigitChars 10 [d] 0 = d.toNat - 48 := by simp [Nat.ofDigitChars_cons, Nat.ofDigitChars_nil]
        rw [value]
        simp only [List.length_singleton, Nat.pow_one]
        omega
      | d :: e :: more =>
        have hundred : 10 ^ 2 ≤ 10 ^ (d :: e :: more).length := Nat.pow_le_pow_right (by decide) (by simp)
        have large := Nat.le_mul_of_pos_right (10 ^ (d :: e :: more).length) (show 0 < c.toNat - 48 by omega)
        simp only [List.length_cons] at hundred large ⊢
        omega

/-- The letters that say how an argument is to be converted. -/
def conversions : List Char := ['d', 'i', 'u', 'o', 'x', 'X', 'c', 'e', 'E', 'f', 'F', 'g', 'G', 'q', 's']

theorem unflagged_of_mem {c : Char} (member : c ∈ conversions) (rest : List Char) : Unflagged (c :: rest) := by
  rintro d ⟨⟩ flag rfl
  revert member
  cases flag <;> decide

theorem undigited_of_mem {c : Char} (member : c ∈ conversions) (rest : List Char) : Undigited (c :: rest) := by
  have none : conversions.any Char.isDigit = false := rfl
  rintro d ⟨⟩
  exact eq_false_of_ne_true (List.any_eq_false.mp none c member)

theorem ne_point_of_mem {c : Char} (member : c ∈ conversions) : c ≠ '.' := by
  rintro rfl
  revert member
  decide

end Reading

/-- A directive as it is written. -/
structure Spelling where
  flags : List Flag
  width : List Char
  /-- The digits after the point, if there is one. -/
  precision : Option (List Char)
  conversion : Char

namespace Spelling

def point (precision : Option (List Char)) : List Char :=
  match precision with
  | some digits => '.' :: digits
  | none => []

def text (sp : Spelling) : List Char :=
  sp.flags.map Flag.char ++ (sp.width ++ (point sp.precision ++ [sp.conversion]))

/-- What a spelling means: a width that is not written is none, and a precision without digits is zero. -/
def directive (sp : Spelling) : Directive where
  flags := .of sp.flags
  width := if sp.width = [] then none else some (Nat.ofDigitChars 10 sp.width 0)
  precision := sp.precision.map fun digits => Nat.ofDigitChars 10 digits 0
  conversion := sp.conversion

/-- Distinct flags, a width of at most two digits that does not start with zero, a precision that has at most
two digits after its zeros, and a conversion letter. -/
structure Valid (sp : Spelling) : Prop where
  distinct : sp.flags.Nodup
  width : ∀ c ∈ sp.width, c.isDigit = true
  width_short : sp.width.length ≤ 2
  width_nonzero : sp.width.head? ≠ some '0'
  precision : ∀ digits ∈ sp.precision, ∀ c ∈ digits, c.isDigit = true
  precision_short : ∀ digits ∈ sp.precision, (digits.dropWhile (· == '0')).length ≤ 2
  conversion : sp.conversion ∈ conversions

/-- A spelling with at most two digits in its precision. -/
structure Regular (sp : Spelling) : Prop extends sp.Valid where
  precision_length : ∀ digits ∈ sp.precision, digits.length ≤ 2

variable {sp : Spelling} {rest : List Char}

/-- What follows the flags starts with none: a digit other than zero, a point or a letter. -/
theorem Valid.unflagged (valid : sp.Valid) (rest : List Char) :
    Unflagged (sp.width ++ (point sp.precision ++ sp.conversion :: rest)) := by
  cases width : sp.width with
  | nil =>
    cases sp.precision with
    | none => exact unflagged_of_mem valid.conversion rest
    | some digits =>
      rintro d ⟨⟩ flag
      cases flag <;> decide
  | cons c more =>
    have digit := valid.width c (width ▸ List.mem_cons_self)
    have nonzero := valid.width_nonzero
    rintro d ⟨⟩ flag rfl
    rw [width] at nonzero
    cases flag with
    | zero => exact nonzero rfl
    | _ => cases digit

theorem Valid.undigited (valid : sp.Valid) (rest : List Char) : Undigited (point sp.precision ++ sp.conversion :: rest) := by
  cases sp.precision with
  | none => exact undigited_of_mem valid.conversion rest
  | some digits =>
    rintro d ⟨⟩
    rfl

theorem text_append (sp : Spelling) (rest : List Char) :
    sp.text ++ rest = sp.flags.map Flag.char ++ (sp.width ++ (point sp.precision ++ sp.conversion :: rest)) := by
  simp [text]

/-- No directive starts with another percent sign. -/
theorem Valid.single (valid : sp.Valid) (rest more : List Char) : sp.text ++ rest ≠ '%' :: more := by
  rw [text_append]
  cases flags : sp.flags with
  | cons flag others =>
    intro same
    have first := (List.cons.inj same).1
    revert first
    cases flag <;> decide
  | nil =>
    cases width : sp.width with
    | cons c digits =>
      intro same
      have digit := valid.width c (width ▸ List.mem_cons_self)
      rw [(List.cons.inj same).1] at digit
      cases digit
    | nil =>
      cases sp.precision with
      | some digits =>
        intro same
        have first := (List.cons.inj same).1
        revert first
        decide
      | none =>
        intro same
        have letter := valid.conversion
        rw [(List.cons.inj same).1] at letter
        revert letter
        decide

/-- A valid spelling is read as what it means, and reading stops right after its letter. -/
theorem Valid.read (valid : sp.Valid) (rest : List Char) : Directive.read (sp.text ++ rest) = .ok (sp.directive, rest) := by
  have flagged := readFlags_written (f := {}) valid.distinct (fun flag _ => by cases flag <;> rfl) (valid.unflagged rest)
  rw [Flags.foldl_adding_none] at flagged
  have narrow : Nat.ofDigitChars 10 sp.width 0 < fieldLimit := by
    rw [ofDigitChars_lt_fieldLimit_iff valid.width]
    exact Nat.le_trans (List.dropWhile_sublist _).length_le valid.width_short
  have widened : readField none (sp.width ++ (point sp.precision ++ sp.conversion :: rest)) = .ok (fieldFrom none sp.width, _) :=
    readField_digits valid.width narrow (valid.undigited rest)
  rw [text_append]
  simp only [Directive.read, bind, Except.bind, flagged, widened]
  cases precise : sp.precision with
  | none =>
    have letter := ne_point_of_mem valid.conversion
    simp only [point, List.nil_append, directive, precise, fieldFrom]
    split
    · next same => exact absurd (List.cons.inj same).1 letter
    · rfl
  | some digits =>
    have allDigits := valid.precision digits precise
    have short := (ofDigitChars_lt_fieldLimit_iff allDigits).mpr (valid.precision_short digits precise)
    have fielded : readField none (digits ++ sp.conversion :: rest) = .ok (fieldFrom none digits, _) :=
      readField_digits allDigits short (undigited_of_mem valid.conversion rest)
    simp only [point, List.cons_append, directive, precise, fielded, fieldFrom]
    cases digits <;> rfl

end Spelling

/-- Every directive with fields within the limit can be spelled. -/
theorem exists_spelling {d : Directive} (wide : ∀ w ∈ d.width, 0 < w ∧ w < fieldLimit)
    (precise : ∀ p ∈ d.precision, p < fieldLimit) (letter : d.conversion ∈ conversions) :
    ∃ sp : Spelling, sp.Regular ∧ sp.directive = d := by
  have digit (n : Nat) : ∀ c ∈ Decimal.digits n, c.isDigit = true :=
    fun c member => Nat.isDigit_of_mem_toDigits (by decide) (by decide) member
  have short {n : Nat} (small : n < fieldLimit) : (Decimal.digits n).length ≤ 2 :=
    (Nat.length_toDigits_le_iff (by decide) (by decide)).mpr small
  have nonzero : ∀ n < fieldLimit, 0 < n → (Decimal.digits n).head? ≠ some '0' := by decide
  obtain ⟨flags, width, precision, conversion⟩ := d
  have onWidth : (∀ c ∈ (width.map Decimal.digits).getD [], c.isDigit = true) ∧
      ((width.map Decimal.digits).getD []).length ≤ 2 ∧ ((width.map Decimal.digits).getD []).head? ≠ some '0' := by
    cases width with
    | none => simp
    | some w => exact ⟨digit w, short (wide w rfl).2, nonzero w (wide w rfl).2 (wide w rfl).1⟩
  have onPrecision {P : List Char → Prop} (given : ∀ p ∈ precision, P (Decimal.digits p)) :
      ∀ digits ∈ precision.map Decimal.digits, P digits := by
    intro digits member
    obtain ⟨p, written, rfl⟩ := Option.map_eq_some_iff.mp member
    exact given p written
  refine ⟨⟨[.left, .plus, .space, .zero, .alternate].filter flags.has, (width.map Decimal.digits).getD [],
    precision.map Decimal.digits, conversion⟩,
    ⟨⟨?_, onWidth.1, onWidth.2.1, onWidth.2.2, ?_, ?_, letter⟩, ?_⟩, ?_⟩
  · exact List.Pairwise.filter _ (by decide)
  · exact onPrecision fun p _ => digit p
  · exact onPrecision fun p given => Nat.le_trans (List.dropWhile_sublist _).length_le (short (precise p given))
  · exact onPrecision fun p given => short (precise p given)
  · have same : Flags.of ([.left, .plus, .space, .zero, .alternate].filter flags.has) = flags := by
      apply Flags.ext_has
      intro flag
      rw [Flags.has_of]
      cases flag <;> simp [Flags.has]
    have read (n : Nat) : Nat.ofDigitChars 10 (Decimal.digits n) 0 = n := Nat.ofDigitChars_ten_toDigits
    have written (n : Nat) : Decimal.digits n ≠ [] := Nat.toDigits_ne_nil
    simp only [Spelling.directive, same]
    cases width <;> cases precision <;> simp [read, written]

/-- What is read with a conversion letter is a valid spelling. -/
theorem spelling_of_read {text rest : List Char} {d : Directive} (read : Directive.read text = .ok (d, rest))
    (letter : d.conversion ∈ conversions) : ∃ sp : Spelling, sp.Valid ∧ text = sp.text ++ rest ∧ d = sp.directive := by
  obtain ⟨⟨flags, sized⟩, flagged, read⟩ := bind_ok read
  obtain ⟨⟨width, pointed⟩, widened, read⟩ := bind_ok read
  obtain ⟨written, distinct, -, rfl, rfl, unflagged⟩ := written_of_readFlags flagged
  obtain ⟨wide, wideDigits, wideSmall, rfl, rfl, undigited⟩ := digits_of_readField (by decide) widened
  have nonzero : wide.head? ≠ some '0' := by
    intro zero
    have first : (wide ++ pointed).head? = some '0' := by
      rw [List.head?_append, zero, Option.some_or]
    exact unflagged '0' first .zero rfl
  have short : wide.length ≤ 2 := by
    have kept : wide.dropWhile (· == '0') = wide := by
      cases wide with
      | nil => rfl
      | cons c more => exact List.dropWhile_cons_of_neg (by simpa using nonzero)
    rw [← kept]
    exact (ofDigitChars_lt_fieldLimit_iff wideDigits).mp wideSmall
  rw [Flags.foldl_adding_none] at read
  dsimp only at read
  split at read
  · next digits =>
    obtain ⟨⟨precision, closed⟩, fielded, read⟩ := bind_ok read
    obtain ⟨precise, preciseDigits, preciseSmall, rfl, rfl, -⟩ := digits_of_readField (by decide) fielded
    cases closed with
    | nil => cases read
    | cons conversion rest =>
      have brief := (ofDigitChars_lt_fieldLimit_iff preciseDigits).mp preciseSmall
      cases read
      refine ⟨⟨written, wide, some precise, conversion⟩, ⟨distinct, wideDigits, short, nonzero, ?_, ?_, letter⟩, ?_, ?_⟩
      · rintro digits ⟨⟩
        exact preciseDigits
      · rintro digits ⟨⟩
        exact brief
      · rw [Spelling.text_append]
        rfl
      · simp only [Spelling.directive, fieldFrom]
        cases precise <;> rfl
  · cases pointed with
    | nil => cases read
    | cons conversion rest =>
      cases read
      refine ⟨⟨written, wide, none, conversion⟩, ⟨distinct, wideDigits, short, nonzero, ?_, ?_, letter⟩, ?_, rfl⟩
      · simp
      · simp
      · rw [Spelling.text_append]
        rfl

/-- What makes a text no directive: a flag that is repeated, a field that is too long, or a wrong letter or none. -/
inductive DirectiveFault : ScriptError → Prop where
  | repeatedFlags : DirectiveFault .repeatedFlags
  | fieldTooLong : DirectiveFault .fieldTooLong
  | invalidDirective (conversion : Option Char) : DirectiveFault (.invalidDirective conversion)

theorem bind_error {α β : Type} {first : Except ScriptError α} {next : α → Except ScriptError β} {e : ScriptError}
    (failed : first >>= next = .error e) : first = .error e ∨ ∃ a, first = .ok a ∧ next a = .error e := by
  cases first with
  | error other =>
    cases failed
    exact .inl rfl
  | ok a => exact .inr ⟨a, rfl, failed⟩

theorem read_error {text : List Char} {e : ScriptError} (failed : Directive.read text = .error e) : DirectiveFault e := by
  obtain flagged | ⟨⟨flags, sized⟩, _, failed⟩ := bind_error failed
  · rw [readFlags_error flagged]
    exact .repeatedFlags
  obtain widened | ⟨⟨width, pointed⟩, _, failed⟩ := bind_error failed
  · rw [readField_error widened]
    exact .fieldTooLong
  dsimp only at failed
  split at failed
  · obtain fielded | ⟨⟨precision, closed⟩, _, failed⟩ := bind_error failed
    · rw [readField_error fielded]
      exact .fieldTooLong
    · cases closed <;> cases failed
      exact .invalidDirective none
  · cases pointed <;> cases failed
    exact .invalidDirective none

end Formatting

end CoopScript
