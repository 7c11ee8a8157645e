import CoopScript.Proofs.FormatRounds
import CoopScript.Proofs.IntegerTexts

/-! Quoted literals read back. The code of a control character is written with as few digits as it has,
unless a digit follows, and then with three. So what follows it can never be taken for a part of the code,
and a reader that knows nothing of how a literal was written finds every character where it was. -/

namespace CoopScript

namespace QuotedLiteral

/-- What an escape stands for, given what follows its backslash, and the text after it. A code is a run of
digits that is as long as it can be up to three. -/
def escaped? : List Char → Option (Char × List Char)
  | '"' :: rest => some ('"', rest)
  | '\\' :: rest => some ('\\', rest)
  | 'n' :: rest => some ('\n', rest)
  | 'r' :: rest => some ('\r', rest)
  | text =>
    let code := (text.take 3).takeWhile Char.isDigit
    if code.isEmpty then none else some (Char.ofNat (Nat.ofDigitChars 10 code 0), text.drop code.length)

theorem length_of_escaped? {text rest : List Char} {c : Char} (escaped : escaped? text = some (c, rest)) :
    rest.length ≤ text.length := by
  unfold escaped? at escaped
  split at escaped
  case h_5 =>
    simp only at escaped
    split at escaped <;> cases escaped
    rw [List.length_drop]
    exact Nat.sub_le _ _
  all_goals
    cases escaped
    exact Nat.le_succ _

/-- The characters of a literal up to its closing quote, and the text after it. -/
def inside? (text : List Char) : Option (List Char × List Char) :=
  match text with
  | [] => none
  | '"' :: rest => some ([], rest)
  | '\\' :: rest =>
    match _escaped : escaped? rest with
    | none => none
    | some (c, after) => (inside? after).map fun (s, rest) => (c :: s, rest)
  | c :: rest => (inside? rest).map fun (s, rest) => (c :: s, rest)
termination_by text.length
decreasing_by
  · exact Nat.lt_succ_of_le (length_of_escaped? _escaped)
  · exact Nat.lt_succ_self _

/-- The string that a text is the literal of. -/
def read? (text : String) : Option String :=
  match text.toList with
  | '"' :: rest =>
    match inside? rest with
    | some (s, []) => some (String.ofList s)
    | _ => none
  | _ => none

variable {c : Char} {rest after s digits : List Char}

theorem inside?_escape (escaped : escaped? rest = some (c, after)) (read : inside? after = some (s, digits)) :
    inside? ('\\' :: rest) = some (c :: s, digits) := by
  rw [inside?]
  split
  · next none => cases escaped.symm.trans none
  · next found =>
    cases escaped.symm.trans found
    rw [read]
    rfl

theorem inside?_plain (quote : c ≠ '"') (backslash : c ≠ '\\') (read : inside? rest = some (s, after)) :
    inside? (c :: rest) = some (c :: s, after) := by
  rw [inside?]
  · rw [read]
    rfl
  · exact quote
  · exact backslash

/-- A code is read whole if three digits are written, or what follows is no digit. -/
theorem escaped?_code (code : ∀ d ∈ digits, d.isDigit = true) (written : digits ≠ []) (most : digits.length ≤ 3)
    (whole : digits.length = 3 ∨ ∀ d ∈ rest.head?, d.isDigit = false) (value : Nat.ofDigitChars 10 digits 0 = c.toNat) :
    escaped? (digits ++ rest) = some (c, rest) := by
  have maximal : ((digits ++ rest).take 3).takeWhile Char.isDigit = digits := by
    rw [List.take_append, List.take_of_length_le most, List.takeWhile_append_of_pos code]
    obtain three | stops := whole
    · simp [three]
    · cases rest with
      | nil => simp
      | cons d rest =>
        have stop := stops d rfl
        cases 3 - digits.length <;> simp [stop]
  obtain ⟨d, more, rfl⟩ := List.exists_cons_of_ne_nil written
  have digit := code d List.mem_cons_self
  have other (c : Char) (no : c.isDigit = false) : d ≠ c := by
    rintro rfl
    exact Bool.false_ne_true (no.symm.trans digit)
  rw [List.cons_append] at maximal ⊢
  rw [escaped?, maximal, value, Char.ofNat_toNat]
  · simp
  all_goals
    rintro rest ⟨⟩
    exact other _ rfl rfl

end QuotedLiteral

namespace Formatting

open QuotedLiteral

/-- A code is written as short as it is only if no digit follows. -/
theorem escapeCode_cases (c : Char) (rest : List Char) :
    (escapeCode c rest = '\\' :: Decimal.digits c.toNat ∧ ∀ d ∈ rest.head?, d.isDigit = false) ∨
    escapeCode c rest =
      '\\' :: (List.replicate (3 - (Decimal.digits c.toNat).length) '0' ++ Decimal.digits c.toNat) := by
  cases rest with
  | nil => exact .inl ⟨rfl, by simp⟩
  | cons d rest =>
    have same : isDigit d = d.isDigit := rfl
    simp only [escapeCode, same]
    cases digit : d.isDigit with
    | true => exact .inr rfl
    | false => exact .inl ⟨rfl, by simpa using digit⟩

/-- What is written next starts with a digit only if the next character is one. -/
theorem head_quoteChars {rest : List Char} (next : ∀ c ∈ rest.head?, c.isDigit = false) (after : List Char) :
    ∀ d ∈ (quoteChars rest ++ '"' :: after).head?, d.isDigit = false := by
  cases rest with
  | nil => simp [quoteChars]
  | cons c rest =>
    have plain := next c rfl
    simp only [quoteChars]
    (repeat' split) <;> simp [escapeCode, plain]

/-- The escape of a control character stands for it, whatever is written after it. -/
theorem escaped?_escapeCode {c : Char} (control : isControl c = true) (rest after : List Char) :
    ∃ digits, escapeCode c rest = '\\' :: digits ∧
      escaped? (digits ++ (quoteChars rest ++ '"' :: after)) = some (c, quoteChars rest ++ '"' :: after) := by
  have short : (Decimal.digits c.toNat).length ≤ 3 := by
    refine (Nat.length_toDigits_le_iff (by decide) (by decide)).mpr ?_
    simp only [isControl, Bool.or_eq_true, Bool.and_eq_true, decide_eq_true_eq] at control
    omega
  have written (zeros : Nat) := Decimal.padded_ne_nil c.toNat zeros
  have read (zeros : Nat) := Decimal.ofDigitChars_padded c.toNat zeros
  have code (zeros : Nat) := Decimal.isDigit_padded c.toNat zeros
  obtain ⟨same, next⟩ | same := escapeCode_cases c rest
  · exact ⟨_, same, escaped?_code (code 0) (written 0) short (.inr (head_quoteChars next after)) (read 0)⟩
  · have three : (List.replicate (3 - (Decimal.digits c.toNat).length) '0' ++ Decimal.digits c.toNat).length = 3 := by
      rw [List.length_append, List.length_replicate, Nat.sub_add_cancel short]
    exact ⟨_, same, escaped?_code (code _) (written _) (Nat.le_of_eq three) (.inl three) (read _)⟩

/-- The inside of a literal is read back up to its closing quote. -/
theorem inside?_quoteChars (s after : List Char) : inside? (quoteChars s ++ '"' :: after) = some (s, after) := by
  induction s with
  | nil => rw [quoteChars, List.nil_append, inside?]
  | cons c rest ih =>
    rw [quoteChars, List.append_assoc]
    by_cases quote : c = '"'
    · subst quote
      exact inside?_escape rfl ih
    by_cases backslash : c = '\\'
    · subst backslash
      exact inside?_escape rfl ih
    by_cases newline : c = '\n'
    · subst newline
      exact inside?_escape rfl ih
    by_cases carriage : c = '\r'
    · subst carriage
      exact inside?_escape rfl ih
    simp only [quote, backslash, newline, carriage, if_false]
    split
    · next control =>
      obtain ⟨digits, written, escaped⟩ := escaped?_escapeCode control rest after
      rw [written]
      exact inside?_escape escaped ih
    · exact inside?_plain quote backslash ih

theorem read?_literal {s text : String} (literal : literal? (.str s) = some text) : QuotedLiteral.read? text = some s := by
  cases literal
  simp only [QuotedLiteral.read?, String.toList_ofList, List.cons_append, inside?_quoteChars, String.ofList_toList]

theorem invoke_quoted {v : Value} {text : String} (literal : literal? v = some text) (w : World) :
    Builtin.format.invoke [.str "%q", v] w = (.ok (.ret [.str text]), w) := by
  have read : Directive.read ['q'] = .ok (⟨{}, none, none, 'q'⟩, []) := rfl
  have next : Arguments.nextAny ⟨"format", [.str "%q", v], 1⟩ = .ok (v, ⟨"format", [.str "%q", v], 2⟩) := rfl
  have converted : convert ⟨{}, none, none, 'q'⟩ ⟨"format", [.str "%q", v], 1⟩ =
      .ok (.inl text, ⟨"format", [.str "%q", v], 2⟩) := by
    simp only [convert, bind, StateT.bind, next, Except.bind, literal]
    rfl
  exact invoke_directive (by simp) (by simp) read converted w

/-- The literal of a string is read back as the string, so that no two strings have the same literal, and the literal
of an integer is read back as the integer. -/
theorem literals_read_back :
    (∃ text : String → String,
      (∀ s w, Builtin.format.invoke [.str "%q", .str s] w = (.ok (.ret [.str (text s)]), w)) ∧
      (∀ s, QuotedLiteral.read? (text s) = some s) ∧ Function.Injective text) ∧
    ∃ text : Int64 → String,
      (∀ i w, Builtin.format.invoke [.str "%q", .int i] w = (.ok (.ret [.str (text i)]), w)) ∧
      ∀ i, Numeral.read? (text i).toList = some (.int i) := by
  have reads (s : String) := read?_literal (s := s) rfl
  refine ⟨⟨_, fun s => invoke_quoted rfl, reads, fun s t same => ?_⟩, intText, fun i => invoke_quoted rfl, read?_intText⟩
  exact Option.some.inj ((reads s).symm.trans ((congrArg QuotedLiteral.read? same).trans (reads t)))

example : literal? (.str "\x071\x07") = some "\"\\0071\\7\"" := by decide

end Formatting

end CoopScript
