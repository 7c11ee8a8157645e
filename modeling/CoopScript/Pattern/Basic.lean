import CoopScript.Pattern.CharClass

/-! Patterns: regular expressions with groups, assertions and a preference among matches. -/

namespace CoopScript

inductive Assertion where
  | textStart
  | textEnd
  | lineStart
  | lineEnd
  /-- Line bounds where a carriage return and a newline together end a line. -/
  | lineStartCrlf
  | lineEndCrlf
  | wordBound
  | noWordBound
  | wordStart
  | wordEnd
  deriving DecidableEq

inductive Pattern where
  | empty
  | char (set : CharClass)
  | assertion (a : Assertion)
  | concat (first second : Pattern)
  /-- The first alternative is preferred. -/
  | alternative (first second : Pattern)
  /-- A greedy repetition prefers one more round, a lazy one prefers to stop. -/
  | repetition (body : Pattern) (min : Nat) (max : Option Nat) (greedy : Bool)
  | group (index : Nat) (body : Pattern)
  deriving DecidableEq

namespace Pattern

/-- The least number of characters of a match; none when nothing can match. -/
def minLength : Pattern → Option Nat
  | empty => some 0
  | char .none => none
  | char _ => some 1
  | assertion _ => some 0
  | concat a b =>
    match a.minLength, b.minLength with
    | some m, some n => some (m + n)
    | _, _ => none
  | alternative a b =>
    match a.minLength, b.minLength with
    | some m, some n => some (Nat.min m n)
    | _, _ => none
  | repetition body min _ _ => body.minLength.map (min * ·)
  | group _ body => body.minLength

/-- Whether every match is empty. -/
def onlyEmpty : Pattern → Bool
  | empty => true
  | char _ => false
  | assertion _ => true
  | concat a b => a.onlyEmpty && b.onlyEmpty
  | alternative a b => a.onlyEmpty && b.onlyEmpty
  | repetition body _ max _ => max == some 0 || body.onlyEmpty
  | group _ body => body.onlyEmpty

/-- A repetition in simplest form. A body that only matches the empty text is repeated once
at most, no rounds at all match the empty text, and exactly one round is the body. -/
def repeated (body : Pattern) (min : Nat) (max : Option Nat) (greedy : Bool) : Pattern :=
  let (min, max) :=
    if body.onlyEmpty then (Nat.min min 1, some (Nat.min (max.getD 1) 1)) else (min, max)
  if max == some 0 && min == 0 then empty
  else if min == 1 && max == some 1 then body
  else repetition body min max greedy

/-- One more than the greatest group index that the pattern holds. -/
def groupCount : Pattern → Nat
  | empty | char _ | assertion _ => 1
  | concat a b | alternative a b => Nat.max a.groupCount b.groupCount
  | repetition body _ _ _ => body.groupCount
  | group index body => Nat.max (index + 1) body.groupCount

/-- How many nodes the program of the pattern has. -/
def size : Pattern → Nat
  | empty => 0
  | char _ | assertion _ => 1
  | concat a b => a.size + b.size
  | alternative a b => a.size + b.size + 1
  | repetition body min max _ =>
    match max with
    | some n => (body.size + 1) * n
    | none => body.size * (min + 1) + 2
  | group _ body => body.size + 2

/-- The greatest size of a program. -/
def sizeLimit : Nat := 250000

end Pattern

end CoopScript
