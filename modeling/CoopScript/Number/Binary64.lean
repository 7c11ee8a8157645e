import CoopScript.Number.Power

/-! Binary floating-point numbers of 64 bits. A finite word counts units of `2 ^ -1074`,
so every operation is exact integer arithmetic followed by one rounding to the nearest
word, ties going to the even significand. -/

namespace CoopScript

/-- A floating-point number, given by the word that encodes it: a sign bit, an exponent
field of 11 bits and a fraction of 52 bits. -/
structure Binary64 where
  bits : UInt64
  deriving DecidableEq, Inhabited

namespace Binary64

def isNegative (x : Binary64) : Bool := decide (twoPow 63 ≤ x.bits.toNat)

/-- The word without its sign. Magnitudes are ordered like the absolute values. -/
def magnitude (x : Binary64) : Nat := x.bits.toNat % twoPow 63

def field (x : Binary64) : Nat := x.magnitude / twoPow 52

def fraction (x : Binary64) : Nat := x.magnitude % twoPow 52

/-- The magnitude of the infinities; every magnitude above it is a NaN. -/
def infiniteMagnitude : Nat := 2047 * twoPow 52

def isNaN (x : Binary64) : Bool := decide (infiniteMagnitude < x.magnitude)

def isInfinite (x : Binary64) : Bool := decide (x.magnitude = infiniteMagnitude)

def isFinite (x : Binary64) : Bool := decide (x.magnitude < infiniteMagnitude)

def isZero (x : Binary64) : Bool := decide (x.magnitude = 0)

/-- The integer significand, with the hidden bit of a normal word. -/
def significand (x : Binary64) : Nat :=
  if x.field = 0 then x.fraction else twoPow 52 + x.fraction

/-- The power of two that the significand is scaled by, counted from `2 ^ -1074`. -/
def scale (x : Binary64) : Nat := x.field - 1

/-- How many units of `2 ^ -1074` a finite word stands for, its sign aside. -/
def units (x : Binary64) : Nat := x.significand * twoPow x.scale

def signedUnits (x : Binary64) : Int :=
  if x.isNegative then -(x.units : Int) else x.units

/-- The number of units in one. -/
def one : Nat := twoPow 1074

/-- The word with the given sign and magnitude. -/
def ofMagnitude (negative : Bool) (magnitude : Nat) : Binary64 :=
  ⟨UInt64.ofNat (if negative then twoPow 63 + magnitude else magnitude)⟩

def zero (negative : Bool) : Binary64 := ofMagnitude negative 0

def infinity (negative : Bool) : Binary64 := ofMagnitude negative infiniteMagnitude

def nan : Binary64 := ⟨0x7ff8000000000000⟩

/-- The quotient rounded to the nearest integer, a half going to the even neighbour. -/
def roundQuotient (num den : Nat) : Nat :=
  let quotient := num / den
  let rest := num % den
  if 2 * rest > den || (2 * rest == den && quotient % 2 == 1) then quotient + 1 else quotient

/-- The magnitude nearest to `num / den` units. The scale is the least one that leaves a
significand of 53 bits; a significand that rounds up to `2 ^ 53` carries into the field. -/
def roundUnits (num den : Nat) : Nat :=
  let scale := (num / den).log2 - 52
  min infiniteMagnitude (scale * twoPow 52 + roundQuotient num (den * twoPow scale))

/-- The word nearest to the exact ratio `num / den`. -/
def ofRatio (negative : Bool) (num den : Nat) : Binary64 :=
  ofMagnitude negative (roundUnits (num * one) den)

def ofInt (i : Int) : Binary64 := ofRatio (decide (i < 0)) i.natAbs 1

def neg (x : Binary64) : Binary64 := ofMagnitude (!x.isNegative) x.magnitude

/-- A sum of zeros is negative only when both are; any other exact zero is positive. -/
def add (x y : Binary64) : Binary64 :=
  if x.isNaN || y.isNaN then nan
  else if x.isInfinite then
    if y.isInfinite && x.isNegative != y.isNegative then nan else x
  else if y.isInfinite then y
  else
    let total := x.signedUnits + y.signedUnits
    if total = 0 then zero (x.isZero && y.isZero && x.isNegative && y.isNegative)
    else ofRatio (decide (total < 0)) total.natAbs one

def sub (x y : Binary64) : Binary64 := x.add y.neg

def mul (x y : Binary64) : Binary64 :=
  let negative := x.isNegative != y.isNegative
  if x.isNaN || y.isNaN then nan
  else if x.isInfinite || y.isInfinite then
    if x.isZero || y.isZero then nan else infinity negative
  else ofRatio negative (x.units * y.units) (one * one)

def div (x y : Binary64) : Binary64 :=
  let negative := x.isNegative != y.isNegative
  if x.isNaN || y.isNaN then nan
  else if x.isInfinite then if y.isInfinite then nan else infinity negative
  else if y.isInfinite then zero negative
  else if y.isZero then if x.isZero then nan else infinity negative
  else ofRatio negative x.units y.units

/-- The greatest integer that is not above the number; zeros keep their sign. -/
def floor (x : Binary64) : Binary64 :=
  if x.isFinite then
    let whole := x.signedUnits.fdiv one
    if whole = 0 then zero x.isNegative else ofInt whole
  else x

/-- A key that orders the numbers other than NaN; both zeros have the key zero. -/
def rank (x : Binary64) : Int :=
  if x.isNegative then -(x.magnitude : Int) else x.magnitude

/-- The order of two numbers; a NaN is not comparable. -/
def compare? (x y : Binary64) : Option Ordering :=
  if x.isNaN || y.isNaN then none else some (compare x.rank y.rank)

/-- Equality of the numbers: the zeros are equal, and a NaN differs from itself. -/
def same (x y : Binary64) : Bool := x.compare? y == some .eq

def isIntegral (x : Binary64) : Bool := x.isFinite && x.units % one == 0

/-- The integer of 64 bits that equals the number, if there is one. -/
def toInt64? (x : Binary64) : Option Int64 :=
  let whole := x.signedUnits.tdiv one
  if x.isIntegral && decide (Int64.minValue.toInt ≤ whole) &&
      decide (whole ≤ Int64.maxValue.toInt) then
    some (Int64.ofInt whole)
  else none

end Binary64

end CoopScript
