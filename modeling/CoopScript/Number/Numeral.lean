import CoopScript.Number.Binary64
import CoopScript.Text.Blank

/-! Numerals in text: decimal and hexadecimal integers of 64 bits, and decimal numbers with
a fraction and an exponent, read to the nearest floating-point number. -/

namespace CoopScript

inductive Numeral where
  | int (i : Int64)
  | float (x : Binary64)
  deriving DecidableEq

namespace Numeral

def digitValue? (base : Nat) (c : Char) : Option Nat :=
  let value :=
    if '0' ≤ c && c ≤ '9' then c.toNat - 48
    else if 'a' ≤ c && c ≤ 'z' then c.toNat - 87
    else if 'A' ≤ c && c ≤ 'Z' then c.toNat - 55
    else base
  if value < base then some value else none

/-- The value of a run of digits that `value` precedes. -/
def natural? (base : Nat) (value : Nat) : List Char → Option Nat
  | [] => some value
  | c :: rest =>
    match digitValue? base c with
    | some d => natural? base (value * base + d) rest
    | none => none

/-- A leading sign and what follows it. -/
def signed : List Char → Bool × List Char
  | '-' :: rest => (true, rest)
  | '+' :: rest => (false, rest)
  | text => (false, text)

/-- An optional sign and at least one digit, within the range of 64 bits. -/
def integer? (base : Nat) (text : List Char) : Option Int64 :=
  let (negative, digits) := signed text
  if digits.isEmpty then none
  else
    match natural? base 0 digits with
    | none => none
    | some n =>
      let value : Int := if negative then -(n : Int) else n
      if Int64.minValue.toInt ≤ value ∧ value ≤ Int64.maxValue.toInt then
        some (Int64.ofInt value)
      else none

def isDigit (c : Char) : Bool := '0' ≤ c && c ≤ '9'

/-- The number `coefficient * 10 ^ exponent`. Exponents beyond every finite number or below
half the least one are decided by the count of digits alone. -/
def scaled (negative : Bool) (coefficient : Nat) (exponent : Int) : Binary64 :=
  let size : Int := (Nat.toDigits 10 coefficient).length + exponent
  if coefficient = 0 then Binary64.zero negative
  else if 400 < size then Binary64.infinity negative
  else if size < -400 then Binary64.zero negative
  else if 0 ≤ exponent then Binary64.ofRatio negative (coefficient * tenPow exponent.toNat) 1
  else Binary64.ofRatio negative coefficient (tenPow (-exponent).toNat)

/-- The exponent part after the digits: nothing, or a mark, an optional sign and digits. -/
def exponent? : List Char → Option Int
  | [] => some 0
  | mark :: rest =>
    if mark = 'e' || mark = 'E' then
      let (negative, digits) := signed rest
      if digits.isEmpty then none
      else (natural? 10 0 digits).map fun n => if negative then -(n : Int) else n
    else none

/-- Digits with at most one point among them, at least one digit, and an exponent. -/
def decimal? (negative : Bool) (text : List Char) : Option Binary64 :=
  let whole := text.takeWhile isDigit
  let rest := text.dropWhile isDigit
  let (fraction, rest) :=
    match rest with
    | '.' :: after => (after.takeWhile isDigit, after.dropWhile isDigit)
    | _ => ([], rest)
  if whole.isEmpty && fraction.isEmpty then none
  else
    match natural? 10 0 (whole ++ fraction), exponent? rest with
    | some coefficient, some exponent =>
      some (scaled negative coefficient (exponent - fraction.length))
    | _, _ => none

def lowerAscii (text : List Char) : List Char := text.map Char.toLower

/-- A number with an optional sign; infinities and NaN are spelled in any case. -/
def float? (text : List Char) : Option Binary64 :=
  let (negative, body) := signed text
  let word := String.ofList (lowerAscii body)
  if word = "inf" || word = "infinity" then some (Binary64.infinity negative)
  else if word = "nan" then some Binary64.nan
  else decimal? negative body

/-- The number a text holds between blanks. Text that starts like a hexadecimal integer is
read as nothing else. -/
def read? (text : List Char) : Option Numeral :=
  let body := trimBlanks text
  match integer? 10 body with
  | some i => some (.int i)
  | none =>
    match body with
    | '0' :: 'x' :: digits | '0' :: 'X' :: digits => (integer? 16 digits).map .int
    | _ => (float? body).map .float

end Numeral

end CoopScript
