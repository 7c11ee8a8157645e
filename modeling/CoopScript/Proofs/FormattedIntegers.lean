import CoopScript.Proofs.FormatRounds
import CoopScript.Proofs.IntegerTexts

/-! Formatted integers read back. Whatever the flags, the width and the precision are, a formatted integer is
its digits with zeros in front of them, a mark in front of the zeros and blanks around all of it, and that is
what a numeral may look like. Its length is the width, unless the sign and the digits need more. -/

namespace CoopScript

namespace Numeral

theorem mem_toDigits {base n : Nat} {c : Char} (bigger : 1 < base) (member : c ∈ Nat.toDigits base n) :
    ∃ d < base, c = d.digitChar := by
  induction n using Nat.strongRecOn with
  | _ n ih =>
    rw [Nat.toDigits_eq_if bigger] at member
    split at member
    · next small => exact ⟨n, small, List.mem_singleton.mp member⟩
    · next large =>
      obtain earlier | last := List.mem_append.mp member
      · exact ih (n / base) (Nat.div_lt_self (by omega) bigger) earlier
      · exact ⟨n % base, Nat.mod_lt n (by omega), List.mem_singleton.mp last⟩

theorem natural?_append (base value : Nat) (first rest : List Char) :
    natural? base value (first ++ rest) = (natural? base value first).bind (natural? base · rest) := by
  induction first generalizing value with
  | nil => rfl
  | cons c first ih =>
    rw [List.cons_append, natural?, natural?]
    cases digitValue? base c with
    | none => rfl
    | some d => exact ih _

/-- A sign is no digit. -/
theorem signed_of_natural? {base value n : Nat} {digits : List Char} (read : natural? base value digits = some n) :
    signed digits = (false, digits) := by
  have sign (c : Char) (rest : List Char) (none : digitValue? base c = none) : digits ≠ c :: rest := by
    rintro rfl
    rw [natural?, none] at read
    cases read
  unfold signed
  split
  · exact absurd rfl (sign '-' _ (by simp [digitValue?]))
  · exact absurd rfl (sign '+' _ (by simp [digitValue?]))
  · rfl

theorem natural?_zeros (zeros : Nat) (digits : List Char) :
    natural? 16 0 (List.replicate zeros '0' ++ digits) = natural? 16 0 digits := by
  induction zeros with
  | zero => rfl
  | succ zeros ih => exact ih

/-- The letters of hexadecimal digits may be of either case. -/
inductive Cased : (Char → Char) → Prop where
  | lower : Cased id
  | upper : Cased Char.toUpper

variable {cased : Char → Char} {n : Nat}

theorem Cased.digitValue? (either : Cased cased) {d : Nat} (small : d < 16) : digitValue? 16 (cased d.digitChar) = some d := by
  cases either <;> revert d <;> decide

theorem Cased.isBlank (either : Cased cased) {d : Nat} (small : d < 16) : isBlank (cased d.digitChar) = false := by
  cases either <;> revert d <;> decide

theorem natural?_toDigits (either : Cased cased) (n : Nat) : natural? 16 0 ((Nat.toDigits 16 n).map cased) = some n := by
  induction n using Nat.strongRecOn with
  | _ n ih =>
    rw [Nat.toDigits_eq_if (by decide)]
    split
    · next small => simp [natural?, either.digitValue? small]
    · next large =>
      have rest := ih (n / 16) (Nat.div_lt_self (by omega) (by decide))
      rw [List.map_append, natural?_append, rest, Option.bind_some, List.map_singleton, natural?,
        either.digitValue? (Nat.mod_lt n (by decide))]
      exact congrArg some (Nat.div_add_mod' n 16)

/-- What a number in hexadecimal notation begins with. -/
inductive HexMark : List Char → Prop where
  | lower : HexMark ['0', 'x']
  | upper : HexMark ['0', 'X']

/-- A positive integer is read back from its hexadecimal digits with zeros in front of them, among blanks. -/
theorem read?_of_hex {mark before after : List Char} {i : Int64} (positive : 0 < i.toInt) (marks : HexMark mark)
    (either : Cased cased) (zeros : Nat) (blank : ∀ c ∈ before, isBlank c = true) (later : ∀ c ∈ after, isBlank c = true) :
    read? (before ++ (mark ++ (List.replicate zeros '0' ++ (Nat.toDigits 16 i.toInt.toNat).map cased) ++ after)) =
      some (.int i) := by
  have read := natural?_zeros zeros ((Nat.toDigits 16 i.toInt.toNat).map cased)
  rw [natural?_toDigits either] at read
  have solid : ∀ c ∈ List.replicate zeros '0' ++ (Nat.toDigits 16 i.toInt.toNat).map cased, isBlank c = false := by
    intro c member
    obtain zero | digit := List.mem_append.mp member
    · rw [(List.mem_replicate.mp zero).2]
      rfl
    · obtain ⟨c, listed, rfl⟩ := List.mem_map.mp digit
      obtain ⟨d, small, rfl⟩ := mem_toDigits (show 1 < 16 by decide) listed
      exact either.isBlank small
  have unsigned := signed_of_natural? read
  have written : List.replicate zeros '0' ++ (Nat.toDigits 16 i.toInt.toNat).map cased ≠ [] := by
    simp [Nat.toDigits_ne_nil]
  have value : (i.toInt.toNat : Int) = i.toInt := Int.toNat_of_nonneg (Int.le_of_lt positive)
  generalize List.replicate zeros '0' ++ (Nat.toDigits 16 i.toInt.toNat).map cased = digits at *
  have whole : integer? 16 digits = some i := by
    simp only [integer?, unsigned, List.isEmpty_eq_false_iff.mpr written, read, Bool.false_eq_true, if_false, value,
      Int64.minValue_le_toInt, Int64.toInt_le, and_self, if_true, Int64.ofInt_toInt]
  have decimal (x : Char) (letter : digitValue? 10 x = none) : integer? 10 ('0' :: x :: digits) = none := by
    have zero : digitValue? 10 '0' = some 0 := by decide
    simp [integer?, signed, natural?, zero, letter]
  cases marks with
  | lower =>
    rw [read?, trimBlanks_between blank (by simpa using ⟨by decide, by decide, solid⟩) later]
    simp only [List.cons_append, List.nil_append, decimal 'x' (by decide), whole, Option.map_some]
  | upper =>
    rw [read?, trimBlanks_between blank (by simpa using ⟨by decide, by decide, solid⟩) later]
    simp only [List.cons_append, List.nil_append, decimal 'X' (by decide), whole, Option.map_some]

end Numeral

namespace Formatting

open Arguments Numeral

namespace Directive

variable (d : Directive)

@[simp] theorem toList_fill (c : Char) (count : Nat) : (fill c count).toList = List.replicate count c := String.toList_ofList

@[simp] theorem length_fill (c : Char) (count : Nat) : (fill c count).length = count := by
  rw [← String.length_toList, toList_fill, List.length_replicate]

/-- What is padded keeps its mark and its body, with zeros between them and blanks around. -/
theorem toList_pad (mark body : String) (zeros : Bool) : ∃ before fill after,
    (d.pad mark body zeros).toList =
      List.replicate before ' ' ++ (mark.toList ++ (List.replicate fill '0' ++ body.toList)) ++ List.replicate after ' ' := by
  rw [pad]
  split
  · exact ⟨0, 0, d.width.getD 0 - (mark.length + body.length), by simp⟩
  · split
    · exact ⟨0, d.width.getD 0 - (mark.length + body.length), 0, by simp⟩
    · exact ⟨d.width.getD 0 - (mark.length + body.length), 0, 0, by simp⟩

theorem length_pad (mark body : String) (zeros : Bool) :
    (d.pad mark body zeros).length = max (d.width.getD 0) (mark.length + body.length) := by
  rw [pad]
  split
  · simp only [String.length_append, length_fill]
    omega
  · split <;> simp only [String.length_append, length_fill] <;> omega

variable {d}

/-- Digits are lost only by a zero with precision zero. -/
theorem digits_eq {digits : String} (shown : ¬(d.precision = some 0 ∧ digits = "0")) :
    d.digits digits = fill '0' (d.precision.getD 0 - digits.length) ++ digits := by
  rw [Directive.digits]
  split
  · next p precise =>
    rw [precise] at shown ⊢
    rw [if_neg (by simpa using shown), Option.getD_some]
  · next absent =>
    rw [absent, Option.getD_none, Nat.zero_sub]
    exact (String.empty_append).symm

theorem length_digits {digits : String} (shown : ¬(d.precision = some 0 ∧ digits = "0")) :
    (d.digits digits).length = max digits.length (d.precision.getD 0) := by
  rw [digits_eq shown, String.length_append, length_fill]
  omega

/-- How many characters the sign takes. -/
def signLength (d : Directive) (negative : Bool) : Nat := if negative || d.flags.plus || d.flags.space then 1 else 0

theorem length_sign (d : Directive) (negative : Bool) : (d.sign negative).length = d.signLength negative := by
  simp only [sign, signLength]
  cases negative <;> cases d.flags.plus <;> cases d.flags.space <;> rfl

/-- A sign is a mark, or a blank in place of one. -/
theorem sign_marks (d : Directive) (negative : Bool) : ∃ blanks mark,
    (d.sign negative).toList = List.replicate blanks ' ' ++ mark ∧ Marks mark negative := by
  cases negative with
  | true => exact ⟨0, ['-'], by simp [sign], .minus⟩
  | false =>
    simp only [sign, Bool.false_eq_true, if_false]
    split
    · exact ⟨0, ['+'], by simp, .plus⟩
    · split
      · exact ⟨1, [], by simp, .none⟩
      · exact ⟨0, [], by simp, .none⟩

theorem isBlank_of_mem_replicate (count : Nat) : ∀ c ∈ List.replicate count ' ', isBlank c = true := by
  intro c member
  rw [(List.mem_replicate.mp member).2]
  rfl

theorem natText_ne_zero {n : Nat} (nonzero : n ≠ 0) : natText n ≠ "0" := by
  intro same
  have digits : Decimal.digits n = ['0'] := by
    rw [← String.toList_ofList (l := Decimal.digits n)]
    exact congrArg String.toList same
  have value := Decimal.ofDigitChars_padded n 0
  rw [digits] at value
  exact nonzero value.symm

/-- There are digits to show unless a zero is asked for with precision zero. -/
theorem int_shown {i : Int64} (shown : ¬(d.precision = some 0 ∧ i = 0)) :
    ¬(d.precision = some 0 ∧ natText i.toInt.natAbs = "0") := by
  intro ⟨precise, zero⟩
  have nonzero : i.toInt ≠ 0 := fun none => shown ⟨precise, Int64.toInt_inj.mp none⟩
  exact natText_ne_zero (Int.natAbs_ne_zero.mpr nonzero) zero

theorem length_int {i : Int64} (shown : ¬(d.precision = some 0 ∧ i = 0)) :
    (d.int i).length = max (d.width.getD 0)
      (d.signLength (decide (i.toInt < 0)) + max (Decimal.digits i.toInt.natAbs).length (d.precision.getD 0)) := by
  rw [int, length_pad, length_sign, length_digits (int_shown shown), natText, String.length_ofList]

theorem read?_int {i : Int64} (shown : ¬(d.precision = some 0 ∧ i = 0)) : read? (d.int i).toList = some (.int i) := by
  obtain ⟨before, zeros, after, padded⟩ :=
    d.toList_pad (d.sign (decide (i.toInt < 0))) (d.digits (natText i.toInt.natAbs)) d.precision.isNone
  obtain ⟨blanks, mark, signed, marks⟩ := d.sign_marks (decide (i.toInt < 0))
  rw [int, padded, signed, digits_eq (int_shown shown), String.toList_append, toList_fill, natText, String.toList_ofList]
  have read := read?_of_digits marks (zeros + (d.precision.getD 0 - (String.ofList (Decimal.digits i.toInt.natAbs)).length))
    (isBlank_of_mem_replicate (before + blanks)) (isBlank_of_mem_replicate after)
  simpa [← List.replicate_append_replicate] using read

/-- A positive integer is stored as the word with the same number. -/
theorem toNat_toUInt64 {i : Int64} (positive : 0 < i.toInt) : i.toUInt64.toNat = i.toInt.toNat := by
  have value : i.toInt = if 2 * i.toUInt64.toNat < 2 ^ 64 then (i.toUInt64.toNat : Int) else i.toUInt64.toNat - (2 ^ 64 : Nat) :=
    BitVec.toInt_eq_toNat_cond i.toBitVec
  have small := i.toUInt64.toNat_lt
  split at value <;> omega

/-- With the flag for it, a positive integer in hexadecimal notation has a mark that says so. -/
theorem word_hex {i : Int64} (letter : d.conversion = 'x' ∨ d.conversion = 'X') (alternate : d.flags.alternate = true)
    (positive : 0 < i.toInt) : ∃ mark cased, HexMark mark ∧ Cased cased ∧
      d.word i = d.pad (String.ofList mark) (d.digits (String.ofList ((Nat.toDigits 16 i.toInt.toNat).map cased)))
        d.precision.isNone := by
  have nonzero : i.toInt.toNat ≠ 0 := by omega
  rw [word, toNat_toUInt64 positive]
  generalize i.toInt.toNat = n at *
  obtain lower | upper := letter
  · refine ⟨['0', 'x'], id, .lower, .lower, ?_⟩
    simp [lower, radixText, alternate, nonzero]
  · refine ⟨['0', 'X'], Char.toUpper, .upper, .upper, ?_⟩
    simp [upper, radixText, alternate, nonzero]

theorem read?_word {i : Int64} (letter : d.conversion = 'x' ∨ d.conversion = 'X') (alternate : d.flags.alternate = true)
    (positive : 0 < i.toInt) : read? (d.word i).toList = some (.int i) := by
  obtain ⟨mark, cased, marks, either, written⟩ := word_hex letter alternate positive
  have shown : ¬(d.precision = some 0 ∧ String.ofList ((Nat.toDigits 16 i.toInt.toNat).map cased) = "0") := by
    intro ⟨_, zero⟩
    have digits : (Nat.toDigits 16 i.toInt.toNat).map cased = ['0'] :=
      String.toList_ofList.symm.trans (congrArg String.toList zero)
    have value := natural?_toDigits either i.toInt.toNat
    rw [digits] at value
    have none : 0 = i.toInt.toNat := Option.some.inj value
    omega
  obtain ⟨before, zeros, after, padded⟩ := d.toList_pad (String.ofList mark)
    (d.digits (String.ofList ((Nat.toDigits 16 i.toInt.toNat).map cased))) d.precision.isNone
  rw [written, padded, digits_eq shown, String.toList_append, toList_fill, String.toList_ofList, String.toList_ofList]
  have read := read?_of_hex positive marks either
    (zeros + (d.precision.getD 0 - (String.ofList ((Nat.toDigits 16 i.toInt.toNat).map cased)).length))
    (isBlank_of_mem_replicate before) (isBlank_of_mem_replicate after)
  simpa [← List.replicate_append_replicate] using read

end Directive

/-- The format that is one directive. -/
def Spelling.format (sp : Spelling) : String := String.ofList ('%' :: sp.text)

variable {sp : Spelling} {text : String}

theorem Spelling.Valid.invoke (valid : sp.Valid) {v : Value} {args : Arguments}
    (converted : convert sp.directive ⟨"format", [.str sp.format, v], 1⟩ = .ok (.inl text, args)) (w : World) :
    Builtin.format.invoke [.str sp.format, v] w = (.ok (.ret [.str text]), w) := by
  have single := valid.single []
  have read := valid.read []
  rw [List.append_nil] at single read
  exact invoke_directive String.toList_ofList single read converted w

theorem convert_int {d : Directive} (letter : d.conversion = 'd' ∨ d.conversion = 'i') (format : String) (i : Int64) :
    convert d ⟨"format", [.str format, .int i], 1⟩ = .ok (.inl (d.int i), ⟨"format", [.str format, .int i], 2⟩) := by
  rcases letter with letter | letter <;> simp only [convert, letter] <;> rfl

theorem convert_word {d : Directive} (letter : d.conversion = 'x' ∨ d.conversion = 'X') (format : String) (i : Int64) :
    convert d ⟨"format", [.str format, .int i], 1⟩ = .ok (.inl (d.word i), ⟨"format", [.str format, .int i], 2⟩) := by
  rcases letter with letter | letter <;> simp only [convert, letter] <;> rfl

/-- A formatted integer takes its width, or what the sign and the digits need, and it is read back as the
integer. In hexadecimal notation it is read back if it is positive and its notation is marked. -/
theorem integers_read_back (valid : sp.Valid) (i : Int64) (w : World) :
    (sp.conversion = 'd' ∨ sp.conversion = 'i' → ¬(sp.directive.precision = some 0 ∧ i = 0) →
      ∃ text, Builtin.format.invoke [.str sp.format, .int i] w = (.ok (.ret [.str text]), w) ∧
        text.length = max (sp.directive.width.getD 0)
          ((if i.toInt < 0 ∨ .plus ∈ sp.flags ∨ .space ∈ sp.flags then 1 else 0) +
            max (Decimal.digits i.toInt.natAbs).length (sp.directive.precision.getD 0)) ∧
        read? text.toList = some (.int i)) ∧
    (sp.conversion = 'x' ∨ sp.conversion = 'X' → .alternate ∈ sp.flags → 0 < i.toInt →
      ∃ text, Builtin.format.invoke [.str sp.format, .int i] w = (.ok (.ret [.str text]), w) ∧
        read? text.toList = some (.int i)) := by
  refine ⟨fun letter shown => ⟨_, valid.invoke (convert_int letter _ i) w, ?_, Directive.read?_int shown⟩, ?_⟩
  · rw [Directive.length_int shown, Directive.signLength]
    simp [Spelling.directive, Flags.of, or_assoc]
  · intro letter marked positive
    have alternate : sp.directive.flags.alternate = true := decide_eq_true marked
    exact ⟨_, valid.invoke (convert_word letter _ i) w, Directive.read?_word letter alternate positive⟩

/-- The least integer with a plus sign asked for, and zeros up to the width: `%+025d`. -/
private def longest : Spelling := ⟨[.plus, .zero], ['2', '5'], none, 'd'⟩

/-- The greatest integer on the left of its field, with more digits than it has: `%-#30.20X`. -/
private def marked : Spelling := ⟨[.left, .alternate], ['3', '0'], some ['2', '0'], 'X'⟩

theorem integers_read_back_extreme :
    (∃ text, Builtin.format.invoke [.str "%+025d", .int (-9223372036854775808)] {} = (.ok (.ret [.str text]), {}) ∧
      text.length = 25 ∧ read? text.toList = some (.int (-9223372036854775808))) ∧
    ∃ text, Builtin.format.invoke [.str "%-#30.20X", .int 9223372036854775807] {} = (.ok (.ret [.str text]), {}) ∧
      read? text.toList = some (.int 9223372036854775807) := by
  have valid : longest.Valid := by constructor <;> simp [longest, conversions]
  have valid' : marked.Valid := by constructor <;> simp [marked, conversions]
  obtain ⟨text, invoked, length, read⟩ := (integers_read_back valid (-9223372036854775808) {}).1 (.inl rfl) (by decide)
  refine ⟨⟨text, invoked, length.trans (by decide), read⟩, ?_⟩
  exact (integers_read_back valid' 9223372036854775807 {}).2 (.inr rfl) (by decide) (by decide)

end Formatting

end CoopScript
