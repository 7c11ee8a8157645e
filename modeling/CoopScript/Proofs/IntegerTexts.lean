import CoopScript.Value

/-! The decimal texts of integers. A run of digits is read as the number it is the expansion of, zeros in
front of it add nothing, and blanks around a numeral are no part of it. So an integer of 64 bits is read back
from its digits in all the forms they can be given. -/

namespace CoopScript

namespace Decimal

theorem isDigit_padded (n zeros : Nat) : ∀ c ∈ List.replicate zeros '0' ++ digits n, c.isDigit = true := by
  intro c member
  obtain zero | digit := List.mem_append.mp member
  · rw [(List.mem_replicate.mp zero).2]
    rfl
  · exact Nat.isDigit_of_mem_toDigits (by decide) (by decide) digit

theorem padded_ne_nil (n zeros : Nat) : List.replicate zeros '0' ++ digits n ≠ [] :=
  List.append_ne_nil_of_right_ne_nil _ Nat.toDigits_ne_nil

theorem ofDigitChars_padded (n zeros : Nat) : Nat.ofDigitChars 10 (List.replicate zeros '0' ++ digits n) 0 = n := by
  rw [Nat.ofDigitChars_append, Nat.ofDigitChars_replicate_zero, Nat.mul_zero]
  exact Nat.ofDigitChars_ten_toDigits

end Decimal

namespace Numeral

variable {c : Char} {text digits : List Char}

theorem digitValue?_of_isDigit (digit : c.isDigit = true) : digitValue? 10 c = some (c.toNat - '0'.toNat) := by
  have between := Char.isDigit_iff_toNat.mp digit
  have here : ('0' ≤ c && c ≤ '9') = true := digit
  have small : c.toNat - 48 < 10 := by
    have : c.toNat ≤ 57 := between.2
    omega
  simp only [digitValue?, here, if_true, small]
  rfl

theorem natural?_of_digits (allDigits : ∀ c ∈ digits, c.isDigit = true) (value : Nat) :
    natural? 10 value digits = some (Nat.ofDigitChars 10 digits value) := by
  induction digits generalizing value with
  | nil => rfl
  | cons c rest ih =>
    obtain ⟨digit, others⟩ := List.forall_mem_cons.mp allDigits
    rw [natural?, digitValue?_of_isDigit digit, Nat.ofDigitChars_cons, Nat.mul_comm]
    exact ih others _

/-- A mark in front of digits that says whether the number is negative. -/
inductive Marks : List Char → Bool → Prop where
  | none : Marks [] false
  | plus : Marks ['+'] false
  | minus : Marks ['-'] true

theorem signed_of_marks {mark : List Char} {negative : Bool} (marks : Marks mark negative)
    (allDigits : ∀ c ∈ digits, c.isDigit = true) : signed (mark ++ digits) = (negative, digits) := by
  cases marks with
  | plus | minus => rfl
  | none =>
    cases digits with
    | nil => rfl
    | cons c rest =>
      have digit := allDigits c List.mem_cons_self
      have minus : c ≠ '-' := by
        rintro rfl
        cases digit
      have plus : c ≠ '+' := by
        rintro rfl
        cases digit
      simp [signed, minus, plus]

/-- The digits of an integer, with a mark and with zeros in front of them, are read as the integer. -/
theorem integer?_of_digits {mark : List Char} {i : Int64} (marks : Marks mark (decide (i.toInt < 0))) (zeros : Nat) :
    integer? 10 (mark ++ (List.replicate zeros '0' ++ Decimal.digits i.toInt.natAbs)) = some i := by
  have value : (if decide (i.toInt < 0) = true then -(i.toInt.natAbs : Int) else i.toInt.natAbs) = i.toInt := by
    simp only [decide_eq_true_eq]
    omega
  have read := Decimal.ofDigitChars_padded i.toInt.natAbs zeros
  have written := List.isEmpty_eq_false_iff.mpr (Decimal.padded_ne_nil i.toInt.natAbs zeros)
  have allDigits := Decimal.isDigit_padded i.toInt.natAbs zeros
  generalize List.replicate zeros '0' ++ Decimal.digits i.toInt.natAbs = digits at *
  simp only [integer?, signed_of_marks marks allDigits, natural?_of_digits allDigits, read, written, value,
    Int64.minValue_le_toInt, Int64.toInt_le, and_self, if_true, Int64.ofInt_toInt, Bool.false_eq_true, if_false]

theorem isBlank_of_isDigit (digit : c.isDigit = true) : isBlank c = false := by
  have between : 48 ≤ c.toNat ∧ c.toNat ≤ 57 := Char.isDigit_iff_toNat.mp digit
  have ten : ∀ k < 10, isBlank (Char.ofNat (48 + k)) = false := by decide
  have here := ten (c.toNat - 48) (by omega)
  rwa [Nat.add_sub_cancel' between.1, Char.ofNat_toNat] at here

theorem isBlank_of_marks {mark : List Char} {negative : Bool} (marks : Marks mark negative) :
    ∀ c ∈ mark, isBlank c = false := by
  intro c member
  cases marks with
  | none => cases member
  | plus =>
    cases List.mem_singleton.mp member
    rfl
  | minus =>
    cases List.mem_singleton.mp member
    rfl

/-- Blanks around a text without blanks are no part of it. -/
theorem trimBlanks_between {before after : List Char} (blank : ∀ c ∈ before, isBlank c = true)
    (solid : ∀ c ∈ text, isBlank c = false) (later : ∀ c ∈ after, isBlank c = true) :
    trimBlanks (before ++ (text ++ after)) = text := by
  have kept (l : List Char) (solid : ∀ c ∈ l, isBlank c = false) : l.dropWhile isBlank = l := by
    cases l with
    | nil => rfl
    | cons c rest => exact List.dropWhile_cons_of_neg (by simp [solid c])
  rw [trimBlanks, List.dropWhile_append_of_pos blank, List.dropWhile_append, kept text solid]
  cases text with
  | nil =>
    have none : (after ++ []).dropWhile isBlank = [] := List.dropWhile_append_of_pos later
    rw [List.append_nil] at none
    simp [none]
  | cons c rest =>
    have reversed := kept (c :: rest).reverse fun d member => solid d (List.mem_reverse.mp member)
    rw [List.isEmpty_cons, if_neg Bool.false_ne_true, List.reverse_append,
      List.dropWhile_append_of_pos (by simpa using later), reversed, List.reverse_reverse]

/-- An integer is read back from its digits with a mark and with zeros in front of them, among blanks. -/
theorem read?_of_digits {mark before after : List Char} {i : Int64} (marks : Marks mark (decide (i.toInt < 0)))
    (zeros : Nat) (blank : ∀ c ∈ before, isBlank c = true) (later : ∀ c ∈ after, isBlank c = true) :
    read? (before ++ (mark ++ (List.replicate zeros '0' ++ Decimal.digits i.toInt.natAbs) ++ after)) = some (.int i) := by
  have solid : ∀ c ∈ mark ++ (List.replicate zeros '0' ++ Decimal.digits i.toInt.natAbs), isBlank c = false := by
    intro c member
    obtain sign | digit := List.mem_append.mp member
    · exact isBlank_of_marks marks c sign
    · exact isBlank_of_isDigit (Decimal.isDigit_padded _ _ c digit)
  rw [read?, trimBlanks_between blank solid later, integer?_of_digits marks]

end Numeral

/-- An integer is read back from its text. -/
theorem read?_intText (i : Int64) : Numeral.read? (intText i).toList = some (.int i) := by
  have marks : Numeral.Marks (if i.toInt < 0 then ['-'] else []) (decide (i.toInt < 0)) := by
    by_cases negative : i.toInt < 0 <;> simp only [negative, decide_true, decide_false, if_true, if_false]
    · exact .minus
    · exact .none
  have text : (intText i).toList = [] ++ ((if i.toInt < 0 then ['-'] else []) ++
      (List.replicate 0 '0' ++ Decimal.digits i.toInt.natAbs) ++ []) := by
    by_cases negative : i.toInt < 0 <;> simp [intText, negative]
  rw [text, Numeral.read?_of_digits marks 0 (by simp) (by simp)]

end CoopScript
