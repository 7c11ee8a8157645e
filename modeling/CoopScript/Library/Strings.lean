import CoopScript.Library.Arguments
import CoopScript.Library.Matching
import CoopScript.Text.Case
import CoopScript.Text.Utf8

/-! String functions that run to completion. Positions count bytes from one; negative ones
count from the end. -/

namespace CoopScript

namespace Strings

open Arguments

/-- The bytes before a start position, at most the length. -/
def startOffset (index : Int) (length : Nat) : Nat :=
  let first : Int :=
    if 0 < index then index
    else if index = 0 ∨ length < -index then 1
    else length + index + 1
  (min (first - 1) length).toNat

/-- The bytes up to and including an end position, at most the length. -/
def endOffset (index : Int) (length : Nat) : Nat :=
  let last : Int :=
    if length < index then length
    else if 0 ≤ index then index
    else if length < -index then 0
    else length + index + 1
  last.toNat

def bytes (s : String) : Bytes := Utf8.encode s.toList

def ofBytes (bytes : Bytes) : String := String.ofList (Utf8.decode bytes)

/-- The bytes between two positions. -/
def byteRange (s : String) (i j : Int) : Bytes :=
  let all := bytes s
  let start := startOffset i all.length
  let stop := endOffset j all.length
  (all.take stop).drop start

def intValue (n : Nat) : Value := .int (Int64.ofNat n)

def len (args : List Value) : Except ScriptError (List Value) :=
  reading "len" args do
    let s ← nextText
    return [intValue s.utf8ByteSize]

def lower (args : List Value) : Except ScriptError (List Value) :=
  reading "lower" args do
    let s ← nextText
    return [.str (String.ofList (lowerCase s.toList))]

def upper (args : List Value) : Except ScriptError (List Value) :=
  reading "upper" args do
    let s ← nextText
    return [.str (String.ofList (upperCase s.toList))]

def reverse (args : List Value) : Except ScriptError (List Value) :=
  reading "reverse" args do
    let s ← nextText
    return [.str (String.ofList s.toList.reverse)]

/-- Strings must stay below this many bytes. -/
def sizeLimit : Nat := twoPow 31

def rep (args : List Value) : Except ScriptError (List Value) :=
  reading "rep" args do
    let s ← nextText
    let n ← nextInt
    let separator := (← optText).getD ""
    if n.toInt ≤ 0 then return [.str ""]
    let count := n.toInt.toNat
    if sizeLimit ≤ (s.utf8ByteSize + separator.utf8ByteSize) * count then
      throw .stringTooLarge
    else if s.isEmpty && separator.isEmpty then return [.str ""]
    else return [.str (separator.intercalate (List.replicate count s))]

def sub (args : List Value) : Except ScriptError (List Value) :=
  reading "sub" args do
    let s ← nextText
    let i ← optInt 1
    let j ← optInt (-1)
    return [.str (ofBytes (byteRange s i.toInt j.toInt))]

def byte (args : List Value) : Except ScriptError (List Value) :=
  reading "byte" args do
    let s ← nextText
    let i ← optInt 1
    let j ← optInt i
    return (byteRange s i.toInt j.toInt).map fun b => intValue b.toNat

/-- The codes that are left to read, each of which must be a byte. -/
def codes : Nat → ArgumentsM Bytes
  | 0 => return []
  | count + 1 => do
    let code := (← nextInt).toInt
    if 0 ≤ code ∧ code < 256 then return UInt8.ofNat code.toNat :: (← codes count)
    else throw ((← get).badLast .outOfRange)

def char (args : List Value) : Except ScriptError (List Value) :=
  reading "char" args do
    let bytes ← codes args.length
    return [.str (ofBytes bytes)]

def pattern (text : String) : Except ScriptError Pattern.Program :=
  match Pattern.program? text.toList with
  | some program => .ok program
  | none => .error .malformedPattern

/-- The character that a search starts at. There is none beyond the end or inside a
character. -/
def searchStart? (s : String) (init : Int) : Option Nat :=
  if s.utf8ByteSize + 1 < init then none
  else Utf8.charIndex? s.toList (startOffset init s.utf8ByteSize)

/-- The number of bytes before a character. -/
def byteOffset (text : Array Char) (i : Nat) : Nat := Utf8.size (text.extract 0 i).toList

/-- Where a text first occurs in another, in characters. -/
def occurrence? (needle : List Char) : List Char → Option Nat
  | [] => if needle.isEmpty then some 0 else none
  | c :: rest =>
    if needle.isPrefixOf (c :: rest) then some 0 else (occurrence? needle rest).map (· + 1)

def find (args : List Value) : Except ScriptError (List Value) :=
  reading "find" args do
    let s ← nextText
    let wanted ← nextText
    let init ← optInt 1
    let plain := (← nextOrNil).isTruthy
    let text := s.toList.toArray
    match searchStart? s init.toInt with
    | none => return [.nil]
    | some start =>
      if plain then
        match occurrence? wanted.toList (s.toList.drop start) with
        | some offset =>
          let before := byteOffset text (start + offset)
          return [intValue (before + 1), intValue (before + wanted.utf8ByteSize)]
        | none => return [.nil]
      else
        let program ← pattern wanted
        match program.search? text start with
        | some found =>
          let bounds :=
            [intValue (byteOffset text found.start + 1), intValue (byteOffset text found.stop)]
          return if found.groups.length > 1 then bounds ++ found.captures text else bounds
        | none => return [.nil]

def firstMatch (args : List Value) : Except ScriptError (List Value) :=
  reading "match" args do
    let s ← nextText
    let program ← pattern (← nextText)
    let init ← optInt 1
    match searchStart? s init.toInt with
    | none => return [.nil]
    | some start =>
      match program.search? s.toList.toArray start with
      | some found => return found.captures s.toList.toArray
      | none => return [.nil]

/-- The start of an iteration over the matches in a string. -/
def matches? (args : List Value) : Except ScriptError Pattern.Cursor :=
  reading "gmatch" args do
    let s ← nextText
    let program ← pattern (← nextText)
    return { subject := s.toList.toArray, search := program.search? }

end Strings

end CoopScript
