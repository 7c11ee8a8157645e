import CoopScript.Library.Arguments
import CoopScript.Number.Decimal
import CoopScript.Text.Utf8

/-! Formatting of values by a format string. An argument whose text has to come from outside
suspends the work, so formatting is a state that asks for a text and goes on when it is
given. -/

namespace CoopScript

namespace Formatting

structure Flags where
  left : Bool := false
  plus : Bool := false
  space : Bool := false
  zero : Bool := false
  alternate : Bool := false
  deriving DecidableEq

/-- What stands between a percent sign and the end of its conversion letter. -/
structure Directive where
  flags : Flags
  width : Option Nat
  precision : Option Nat
  conversion : Char
  deriving DecidableEq

/-- The flags with one more set, unless the character is none; one that is set already is an
error. -/
def Flags.add? (f : Flags) (c : Char) : Option (Except ScriptError Flags) :=
  let once (isSet : Bool) (flags : Flags) : Option (Except ScriptError Flags) :=
    some (if isSet then .error .repeatedFlags else .ok flags)
  match c with
  | '-' => once f.left { f with left := true }
  | '+' => once f.plus { f with plus := true }
  | ' ' => once f.space { f with space := true }
  | '0' => once f.zero { f with zero := true }
  | '#' => once f.alternate { f with alternate := true }
  | _ => none

def readFlags (f : Flags) : List Char → Except ScriptError (Flags × List Char)
  | [] => .ok (f, [])
  | c :: rest =>
    match f.add? c with
    | some (.ok flags) => readFlags flags rest
    | some (.error e) => .error e
    | none => .ok (f, c :: rest)

def isDigit (c : Char) : Bool := '0' ≤ c && c ≤ '9'

/-- A width or precision must stay below this. -/
def fieldLimit : Nat := 100

/-- A run of digits, if there is any. -/
def readField (value : Option Nat) : List Char → Except ScriptError (Option Nat × List Char)
  | [] => .ok (value, [])
  | c :: rest =>
    if isDigit c then
      let v := value.getD 0 * 10 + (c.toNat - 48)
      if fieldLimit ≤ v then .error .fieldTooLong else readField (some v) rest
    else .ok (value, c :: rest)

/-- The directive at the start of a text, and what follows it. -/
def Directive.read (text : List Char) : Except ScriptError (Directive × List Char) := do
  let (flags, text) ← readFlags {} text
  let (width, text) ← readField none text
  let (precision, text) ←
    match text with
    | '.' :: rest => do
      let (precision, rest) ← readField none rest
      pure (some (precision.getD 0), rest)
    | _ => pure (none, text)
  match text with
  | conversion :: rest => return (⟨flags, width, precision, conversion⟩, rest)
  | [] => throw (.invalidDirective none)

namespace Directive

def sign (d : Directive) (negative : Bool) : String :=
  if negative then "-" else if d.flags.plus then "+" else if d.flags.space then " " else ""

def fill (c : Char) (count : Nat) : String := String.ofList (List.replicate count c)

/-- Pads to the width: on the right if so flagged, else with zeros after the mark if allowed,
else with blanks on the left. -/
def pad (d : Directive) (mark body : String) (zeros : Bool) : String :=
  let missing := d.width.getD 0 - (mark.length + body.length)
  if d.flags.left then mark ++ body ++ fill ' ' missing
  else if d.flags.zero && zeros then mark ++ fill '0' missing ++ body
  else fill ' ' missing ++ mark ++ body

/-- Text cut to the precision. -/
def text (d : Directive) (s : String) : String :=
  let body :=
    match d.precision with
    | some p => String.ofList (s.toList.take p)
    | none => s
  d.pad "" body false

/-- Digits with at least as many places as the precision; a zero with precision zero has
none. -/
def digits (d : Directive) (digits : String) : String :=
  match d.precision with
  | some p => if p = 0 && digits = "0" then "" else fill '0' (p - digits.length) ++ digits
  | none => digits

def int (d : Directive) (i : Int64) : String :=
  d.pad (d.sign (decide (i.toInt < 0))) (d.digits (natText i.toInt.natAbs)) d.precision.isNone

def radixText (base : Nat) (upper : Bool) (n : Nat) : String :=
  let text := Nat.toDigits base n
  String.ofList (if upper then text.map Char.toUpper else text)

/-- An integer as the unsigned word it is stored in, to base ten, eight or sixteen. -/
def word (d : Directive) (i : Int64) : String :=
  let n := i.toUInt64.toNat
  let (digits, mark) :=
    match d.conversion with
    | 'o' => (radixText 8 false n, "0")
    | 'x' => (radixText 16 false n, "0x")
    | 'X' => (radixText 16 true n, "0X")
    | _ => (natText n, "")
  d.pad (if d.flags.alternate && n ≠ 0 then mark else "") (d.digits digits) d.precision.isNone

def fixed (x : Binary64) (places : Nat) (alternate : Bool) : String :=
  Decimal.fixed x places ++ (if alternate && places = 0 then "." else "")

/-- One digit before the point, and an exponent of at least two digits. -/
def exponential (x : Binary64) (places : Nat) (alternate : Bool) : String :=
  let (mantissa, power) := Decimal.scientific x places
  let digits := natText power.natAbs
  mantissa ++ (if alternate && places = 0 then "." else "") ++ "e" ++
    (if power < 0 then "-" else "+") ++ fill '0' (2 - digits.length) ++ digits

/-- A number without the zeros at the end of its fraction. -/
def stripZeros (text : List Char) : List Char :=
  if text.contains '.' then
    let kept := text.reverse.dropWhile (· = '0')
    (match kept with | '.' :: rest => rest | _ => kept).reverse
  else text

/-- The shorter of the two forms for the count of significant digits. -/
def general (x : Binary64) (precision : Nat) (alternate : Bool) : String :=
  let p := max precision 1
  let power := (Decimal.scientific x (p - 1)).2
  let text :=
    if -4 ≤ power ∧ power < p then fixed x (p - 1 - power).toNat alternate
    else exponential x (p - 1) alternate
  if alternate then text
  else
    let chars := text.toList
    let number := chars.takeWhile (· ≠ 'e')
    String.ofList (stripZeros number ++ chars.drop number.length)

def upperText (s : String) : String := String.ofList (s.toList.map Char.toUpper)

def float (d : Directive) (x : Binary64) : String :=
  let cased (s : String) := if d.conversion.isUpper then upperText s else s
  let mark := d.sign (x.isNegative && !x.isNaN)
  if x.isNaN then d.pad mark (cased "nan") false
  else if x.isInfinite then d.pad mark (cased "inf") false
  else
    let precision := d.precision.getD 6
    let body :=
      match d.conversion.toLower with
      | 'f' => fixed x precision d.flags.alternate
      | 'e' => exponential x precision d.flags.alternate
      | _ => general x precision d.flags.alternate
    d.pad mark (cased body) true

end Directive

def isControl (c : Char) : Bool := c.toNat < 32 || (127 ≤ c.toNat && c.toNat < 160)

/-- The code of a control character after a backslash, in three digits if another digit
follows. -/
def escapeCode (c : Char) (rest : List Char) : List Char :=
  let digits := Decimal.digits c.toNat
  let follows := match rest with | d :: _ => isDigit d | [] => false
  '\\' :: (if follows then List.replicate (3 - digits.length) '0' ++ digits else digits)

/-- The inside of a quoted string. -/
def quoteChars : List Char → List Char
  | [] => []
  | c :: rest =>
    let written :=
      if c = '"' then ['\\', '"']
      else if c = '\\' then ['\\', '\\']
      else if c = '\n' then ['\\', 'n']
      else if c = '\r' then ['\\', 'r']
      else if isControl c then escapeCode c rest
      else [c]
    written ++ quoteChars rest

/-- A text that reads back as the value, for the values that have one. -/
def literal? : Value → Option String
  | .str s => some (String.ofList ('"' :: quoteChars s.toList ++ ['"']))
  | .int i => some (intText i)
  | .float x =>
    if x.isNaN then some "(0/0)"
    else if x.isInfinite then some (x.signText ++ "1e9999")
    else some x.literal
  | .nil => some "nil"
  | .bool b => some (if b then "true" else "false")
  | _ => none

end Formatting

open Formatting in
structure Formatting where
  rest : List Char
  args : Arguments
  output : String := ""
  /-- The number of bytes of the format that have been read. -/
  position : Nat := 0
  /-- The directive that waits for a text. -/
  pending : Option Directive := none

namespace Formatting

open Arguments

/-- The dialogue of formatting with whoever supplies texts of values. -/
inductive Next where
  | finished (text : String)
  | textOf (value : Value) (state : Formatting)

/-- The text of the next argument under a directive, or the value whose text is asked for. -/
def convert (d : Directive) : ArgumentsM (String ⊕ Value) := do
  match d.conversion with
  | 'd' | 'i' => return .inl (d.int (← nextInt))
  | 'u' | 'o' | 'x' | 'X' => return .inl (d.word (← nextInt))
  | 'c' =>
    let code := (← nextInt).toInt
    if 0 ≤ code && code.toNat.isValidChar then
      return .inl (d.pad "" (Char.ofNat code.toNat).toString false)
    else throw ((← get).badLast .outOfRange)
  | 'e' | 'E' | 'f' | 'F' | 'g' | 'G' => return .inl (d.float (← nextFloat))
  | 'q' =>
    match literal? (← nextAny) with
    | some text => return .inl text
    | none => throw ((← get).badLast .noLiteral)
  | 's' =>
    let v ← nextAny
    match v.asText? with
    | some s => return .inl (d.text s)
    | none => return .inr v
  | c => throw (.invalidDirective (some c))

/-- Goes on to the next text that has to be asked for. -/
def run (s : Formatting) : Nat → Except ScriptError Next
  | 0 => .ok (.finished s.output)
  | fuel + 1 =>
    match s.rest with
    | [] => .ok (.finished s.output)
    | '%' :: '%' :: rest =>
      run { s with rest, output := s.output ++ "%", position := s.position + 2 } fuel
    | '%' :: text => do
      if !s.args.hasNext then throw (s.args.bad (s.args.position + 1) .missing)
      let (d, rest) ← Directive.read text
      let position := s.position + 1 + (Utf8.size text - Utf8.size rest)
      let (converted, args) ← (convert d).run s.args
      let s := { s with rest, args, position }
      match converted with
      | .inl text => run { s with output := s.output ++ text } fuel
      | .inr value => return .textOf value { s with pending := some d }
    | c :: rest =>
      run { s with rest, output := s.output.push c, position := s.position + c.utf8Size } fuel

def advance (s : Formatting) : Except ScriptError Next := s.run (s.rest.length + 1)

/-- Takes the text that was asked for. -/
def collect (s : Formatting) (value : Value) : Except ScriptError Formatting :=
  match s.pending with
  | none => .ok s
  | some d =>
    match value.asText? with
    | some text => .ok { s with output := s.output ++ d.text text, pending := none }
    | none => .error .tostringResult

def start (values : List Value) : Except ScriptError Formatting := do
  let (format, args) ← nextText.run { function := "format", values }
  return { rest := format.toList, args }

end Formatting

end CoopScript
