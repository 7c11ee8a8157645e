import CoopScript.Number.Binary64

/-! Decimal text of numbers: the fewest digits that read back as the same number, and
expansions with a given count of places or of significant digits, which are exact and send
a half to the even neighbour. -/

namespace CoopScript

/-- A decimal `coefficient * 10 ^ exponent`. -/
structure Decimal where
  coefficient : Nat
  exponent : Int
  deriving DecidableEq, Inhabited

namespace Decimal

/-- Decimal digits of a number, most significant first. -/
def digits (n : Nat) : List Char := Nat.toDigits 10 n

/-- The ratio `num / den * 10 ^ places` as numerator and denominator. -/
def shift (num den : Nat) (places : Int) : Nat × Nat :=
  if 0 ≤ places then (num * tenPow places.toNat, den) else (num, den * tenPow (-places).toNat)

/-- The exponent of the leading digit of a positive ratio: the greatest power of ten that is
not above it. -/
def leading (num den : Nat) : Int :=
  let guess : Int := ((digits num).length : Int) - (digits den).length
  let (n, d) := shift num den (-guess)
  if d ≤ n then guess else guess - 1

/-- The same decimal without trailing zeros in the coefficient, of which at most `fuel` are
dropped. -/
def trim (fuel : Nat) (x : Decimal) : Decimal :=
  match fuel with
  | 0 => x
  | fuel + 1 =>
    if x.coefficient ≠ 0 && x.coefficient % 10 = 0 then
      trim fuel ⟨x.coefficient / 10, x.exponent + 1⟩
    else x

/-- The open or closed interval of ratios that a word is the nearest one to, as bounds over
four units' fractions. -/
structure Neighbourhood where
  low : Nat
  high : Nat
  closed : Bool

/-- The numbers between the midpoints to the two neighbouring words, in quarters of a unit.
The gap below a power of two is half the gap above it. -/
def neighbourhood (x : Binary64) : Neighbourhood :=
  let gap := twoPow x.scale
  let below := if x.significand = twoPow 52 then gap else 2 * gap
  ⟨4 * x.units - below, 4 * x.units + 2 * gap, x.significand % 2 = 0⟩

/-- Whether `coefficient * 10 ^ exponent` lies in the neighbourhood. -/
def Neighbourhood.holds (n : Neighbourhood) (x : Decimal) : Bool :=
  let (num, den) := shift (x.coefficient * 4 * Binary64.one) 1 x.exponent
  if n.closed then decide (n.low * den ≤ num) && decide (num ≤ n.high * den)
  else decide (n.low * den < num) && decide (num < n.high * den)

/-- The decimal with `count` digits or fewer that reads back as the word and is nearest to
it, if there is one. Two that are equally near resolve to the larger. -/
def withDigits? (x : Binary64) (around : Neighbourhood) (lead : Int) (count : Nat) :
    Option Decimal :=
  let exponent := lead - count + 1
  let (num, den) := shift x.units Binary64.one (-exponent)
  let lower : Decimal := ⟨num / den, exponent⟩
  let upper : Decimal := ⟨num / den + 1, exponent⟩
  match around.holds lower, around.holds upper with
  | true, true => some (if 2 * (num % den) < den then lower else upper)
  | true, false => some lower
  | false, true => some upper
  | false, false => none

/-- The first result among `count`, `count + 1`, … digits, `more` of them at most. -/
def search (x : Binary64) (around : Neighbourhood) (lead : Int) (count : Nat) :
    Nat → Option Decimal
  | 0 => none
  | more + 1 =>
    match withDigits? x around lead count with
    | some found => some found
    | none => search x around lead (count + 1) more

/-- The decimal with the fewest digits that reads back as the finite number, its sign aside;
of those the one nearest to it. Seventeen digits always suffice. -/
def shortest (x : Binary64) : Decimal :=
  if x.isZero then ⟨0, 0⟩
  else
    let lead := leading x.units Binary64.one
    match search x (neighbourhood x) lead 1 17 with
    | some found => trim 18 found
    | none => ⟨0, 0⟩

/-- A digit string with `places` digits after the point. -/
def pointed (coefficient places : Nat) : String :=
  let text := digits coefficient
  let text := List.replicate (places + 1 - text.length) '0' ++ text
  if places = 0 then String.ofList text
  else
    let whole := text.length - places
    String.ofList (text.take whole) ++ "." ++ String.ofList (text.drop whole)

/-- A decimal written out without an exponent. -/
def positional (x : Decimal) : String :=
  if 0 ≤ x.exponent then String.ofList (digits (x.coefficient * tenPow x.exponent.toNat))
  else pointed x.coefficient (-x.exponent).toNat

/-- A decimal as one digit, a point and the other digits, and the power of ten it is to be
multiplied by. -/
def normalised (x : Decimal) : String × Int :=
  let text := digits x.coefficient
  (pointed x.coefficient (text.length - 1), x.exponent + (text.length - 1 : Nat))

/-- The number with `places` digits after the point, its sign aside. -/
def fixed (x : Binary64) (places : Nat) : String :=
  pointed (Binary64.roundQuotient (x.units * tenPow places) Binary64.one) places

/-- The number rounded to one digit before the point and `places` after it, its sign aside,
with the power of ten. Rounding up to ten moves the point. -/
def scientific (x : Binary64) (places : Nat) : String × Int :=
  if x.isZero then (pointed 0 places, 0)
  else
    let lead := leading x.units Binary64.one
    let (num, den) := shift x.units Binary64.one (places - lead)
    let rounded := Binary64.roundQuotient num den
    if tenPow (places + 1) ≤ rounded then (pointed (rounded / 10) places, lead + 1)
    else (pointed rounded places, lead)

end Decimal

namespace Binary64

/-- The sign a number is written with. -/
def signText (x : Binary64) : String := if x.isNegative then "-" else ""

/-- The text of a number among values: integers below `10 ^ 16` keep one place, other
numbers are the fewest digits written out in full. -/
def text (x : Binary64) : String :=
  if x.isNaN then "nan"
  else if x.isInfinite then x.signText ++ "inf"
  else if x.isIntegral && decide (x.units < tenPow 16 * one) then
    x.signText ++ Decimal.fixed x 1
  else x.signText ++ (Decimal.shortest x).positional

/-- The text of a finite number as a literal: positional from `10 ^ -4` up to `10 ^ 16`,
always with a point, and with an exponent elsewhere. -/
def literal (x : Binary64) : String :=
  let shortest := Decimal.shortest x
  if x.isZero then x.signText ++ "0.0"
  else if decide (x.units * tenPow 4 < one) || decide (tenPow 16 * one ≤ x.units) then
    let (mantissa, power) := shortest.normalised
    x.signText ++ mantissa ++ "e" ++ toString power
  else if 0 ≤ shortest.exponent then x.signText ++ shortest.positional ++ ".0"
  else x.signText ++ shortest.positional

end Binary64

end CoopScript
