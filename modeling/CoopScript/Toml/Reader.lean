import CoopScript.Toml.Basic

/-! Reading documents of settings. Any text outside the grammar is refused as a whole. -/

namespace CoopScript

namespace Toml

abbrev Reader := StateT (List Char) Option

namespace Reader

def refuse {α : Type} : Reader α := fun _ => none

def peek : Reader (Option Char) := do return (← get).head?

def skip (count : Nat) : Reader Unit := modify (·.drop count)

def accept (text : String) : Reader Bool := do
  if text.toList.isPrefixOf (← get) then
    skip text.length
    return true
  return false

def expect (text : String) : Reader Unit := do
  if !(← accept text) then refuse

def takeWhile (p : Char → Bool) : Reader (List Char) := do
  let taken := (← get).takeWhile p
  skip taken.length
  return taken

end Reader

open Reader

def isControl (c : Char) : Bool := (c.toNat < 32 && c ≠ '\t') || c.toNat = 127

def skipBlanks : Reader Unit := do
  let _ ← takeWhile fun c => c = ' ' || c = '\t'

def acceptNewline : Reader Bool := do
  if ← accept "\n" then return true
  accept "\r\n"

/-- Skips a comment if one comes next. -/
def skipComment : Reader Unit := do
  if ← accept "#" then
    let _ ← takeWhile fun c => !isControl c

/-- Skips blanks, newlines and comments. -/
def skipLines : Nat → Reader Unit
  | 0 => return ()
  | fuel + 1 => do
    skipBlanks
    skipComment
    if ← acceptNewline then skipLines fuel

/-- What ends a line: blanks, a comment, and a newline or the end of the text. -/
def endOfLine : Reader Unit := do
  skipBlanks
  skipComment
  if (← get).isEmpty then return ()
  if !(← acceptNewline) then refuse

def isHexDigit (c : Char) : Bool :=
  ('0' ≤ c && c ≤ '9') || ('a' ≤ c && c ≤ 'f') || ('A' ≤ c && c ≤ 'F')

def digitValue (c : Char) : Nat :=
  if c ≤ '9' then c.toNat - 48 else if c ≤ 'F' then c.toNat - 55 else c.toNat - 87

def valueOf (base : Nat) (digits : List Char) : Nat :=
  digits.foldl (fun n c => n * base + digitValue c) 0

/-- A character by its code in `count` hexadecimal digits. -/
def codeEscape (count : Nat) : Reader Char := do
  let digits := (← get).take count
  if digits.length = count && digits.all isHexDigit then
    let code := valueOf 16 digits
    skip count
    if code.isValidChar then return Char.ofNat code else refuse
  else refuse

/-- What follows a backslash in a string. -/
def escape : Reader Char := do
  match (← get) with
  | [] => refuse
  | c :: _ =>
    skip 1
    match c with
    | 'b' => return '\x08'
    | 't' => return '\t'
    | 'n' => return '\n'
    | 'f' => return '\x0c'
    | 'r' => return '\r'
    | '"' => return '"'
    | '\\' => return '\\'
    | 'u' => codeEscape 4
    | 'U' => codeEscape 8
    | _ => refuse

/-- The rest of a string in double quotes, after what was read, last first. -/
def basicString (read : List Char) : Nat → Reader String
  | 0 => refuse
  | fuel + 1 => do
    match ← peek with
    | none => refuse
    | some c =>
      skip 1
      if c = '"' then return String.ofList read.reverse
      else if c = '\\' then basicString ((← escape) :: read) fuel
      else if isControl c then refuse
      else basicString (c :: read) fuel

/-- The rest of a string in single quotes. -/
def literalString : Reader String := do
  let inside ← takeWhile fun c => c.toNat ≠ 39 && !isControl c
  expect "\x27"
  return String.ofList inside

/-- Up to two more quotes belong to a string over several lines when they stand before the
three that end it. -/
def closingQuotes (quote : Char) (read : List Char) : Reader (Option (List Char)) := do
  let quotes := ((← get).takeWhile (· = quote)).length
  if quotes < 3 then return none
  if 5 < quotes then refuse
  skip quotes
  return some (List.replicate (quotes - 3) quote ++ read)

/-- The rest of a string over several lines in double quotes. A backslash at the end of a line
drops the blanks and newlines after it. -/
def longBasicString (read : List Char) : Nat → Reader String
  | 0 => refuse
  | fuel + 1 => do
    match ← closingQuotes '"' read with
    | some read => return String.ofList read.reverse
    | none =>
      if ← acceptNewline then longBasicString ('\n' :: read) fuel
      else
        match ← peek with
        | none => refuse
        | some c =>
          skip 1
          if c = '\\' then
            let rest := (← get).dropWhile fun c => c = ' ' || c = '\t'
            if "\n".toList.isPrefixOf rest || "\r\n".toList.isPrefixOf rest then
              let _ ← takeWhile fun c => c = ' ' || c = '\t' || c = '\n' || c = '\r'
              longBasicString read fuel
            else longBasicString ((← escape) :: read) fuel
          else if isControl c then refuse
          else longBasicString (c :: read) fuel

/-- The rest of a string over several lines in single quotes. -/
def longLiteralString (read : List Char) : Nat → Reader String
  | 0 => refuse
  | fuel + 1 => do
    match ← closingQuotes (Char.ofNat 39) read with
    | some read => return String.ofList read.reverse
    | none =>
      if ← acceptNewline then longLiteralString ('\n' :: read) fuel
      else
        match ← peek with
        | none => refuse
        | some c =>
          skip 1
          if isControl c then refuse else longLiteralString (c :: read) fuel

def isBareKeyChar (c : Char) : Bool := c.isAlphanum || c = '_' || c = '-'

/-- One part of a key. -/
def keyPart : Reader String := do
  let fuel := (← get).length + 1
  if ← accept "\"" then basicString [] fuel
  else if ← accept "\x27" then literalString
  else
    let bare ← takeWhile isBareKeyChar
    if bare.isEmpty then refuse else return String.ofList bare

/-- The parts of a dotted key after the first. -/
def keyRest : Nat → Reader (List String)
  | 0 => return []
  | fuel + 1 => do
    skipBlanks
    if ← accept "." then
      skipBlanks
      let part ← keyPart
      return part :: (← keyRest fuel)
    else return []

/-- A key: its first part and the others. -/
def key : Reader (String × List String) := do
  skipBlanks
  let first ← keyPart
  return (first, ← keyRest (← get).length)

/-- Digits with single underscores between them, underscores dropped. -/
def digits? (isDigit : Char → Bool) (text : List Char) : Option (List Char) :=
  let parts := text.splitOn '_'
  if parts.all fun part => !part.isEmpty && part.all isDigit then some parts.flatten else none

def inWord (i : Int) : Option Node :=
  if Int64.minValue.toInt ≤ i ∧ i ≤ Int64.maxValue.toInt then some (.integer i) else none

def isDecimal (c : Char) : Bool := '0' ≤ c && c ≤ '9'

/-- A decimal number without a leading zero, unless it is zero. -/
def decimal? (text : List Char) : Option Nat :=
  match digits? isDecimal text with
  | some digits =>
    if digits.head? = some '0' && digits.length > 1 then none else some (valueOf 10 digits)
  | none => none

/-- An exponent: a mark, an optional sign and digits. -/
def isExponent (text : List Char) : Bool :=
  match text with
  | '+' :: digits | '-' :: digits => (digits? isDecimal digits).isSome
  | digits => (digits? isDecimal digits).isSome

/-- A number with a fraction or an exponent after its sign. -/
def isFloat (text : List Char) : Bool :=
  let isMark (c : Char) : Bool := c = 'e' || c = 'E'
  let mantissa := text.takeWhile (!isMark ·)
  let exponentOk :=
    match text.dropWhile (!isMark ·) with
    | [] => true
    | _ :: rest => isExponent rest
  let whole := mantissa.takeWhile (· ≠ '.')
  let fractionOk :=
    match mantissa.dropWhile (· ≠ '.') with
    | [] => mantissa.length < text.length
    | _ :: fraction => (digits? isDecimal fraction).isSome
  (decimal? whole).isSome && fractionOk && exponentOk

def signed (text : List Char) : Int × List Char :=
  match text with
  | '-' :: rest => (-1, rest)
  | '+' :: rest => (1, rest)
  | _ => (1, text)

/-- A number, a truth value, an infinity or a NaN. -/
def scalar? (text : List Char) : Option Node :=
  let (sign, body) := signed text
  match text with
  | '0' :: 'x' :: digits => (digits? isHexDigit digits).bind fun d => inWord (valueOf 16 d)
  | '0' :: 'o' :: digits =>
    (digits? (fun c => '0' ≤ c && c ≤ '7') digits).bind fun d => inWord (valueOf 8 d)
  | '0' :: 'b' :: digits =>
    (digits? (fun c => c = '0' || c = '1') digits).bind fun d => inWord (valueOf 2 d)
  | _ =>
    if String.ofList text = "true" then some (.boolean true)
    else if String.ofList text = "false" then some (.boolean false)
    else if String.ofList body = "inf" || String.ofList body = "nan" then some .float
    else
      match decimal? body with
      | some n => inWord (sign * n)
      | none => if isFloat body then some .float else none

def number? (low high count : Nat) (text : List Char) : Option Nat :=
  if text.length = count && text.all isDecimal then
    let n := valueOf 10 text
    if low ≤ n && n ≤ high then some n else none
  else none

def daysIn (year month : Nat) : Nat :=
  if month = 2 then
    if year % 4 = 0 && (year % 100 ≠ 0 || year % 400 = 0) then 29 else 28
  else if month = 4 || month = 6 || month = 9 || month = 11 then 30
  else 31

/-- A day, as in `1979-05-27`. -/
def isDate (text : List Char) : Bool :=
  match text.splitOn '-' with
  | [year, month, day] =>
    match number? 0 9999 4 year, number? 1 12 2 month with
    | some year, some month => (number? 1 (daysIn year month) 2 day).isSome
    | _, _ => false
  | _ => false

/-- A time of day, as in `07:32:00.999`. -/
def isTime (text : List Char) : Bool :=
  match text.splitOn ':' with
  | [hour, minute, second] =>
    let whole := second.takeWhile (· ≠ '.')
    let fraction := second.dropWhile (· ≠ '.')
    (number? 0 23 2 hour).isSome && (number? 0 59 2 minute).isSome &&
      (number? 0 60 2 whole).isSome &&
      (fraction.isEmpty || (fraction.length > 1 && (fraction.drop 1).all isDecimal))
  | _ => false

/-- An offset from universal time. -/
def isOffset (text : List Char) : Bool :=
  match text with
  | ['Z'] | ['z'] => true
  | '+' :: rest | '-' :: rest =>
    match rest.splitOn ':' with
    | [hour, minute] => (number? 0 23 2 hour).isSome && (number? 0 59 2 minute).isSome
    | _ => false
  | _ => false

/-- A day, a time, or both with or without an offset. -/
def isDatetime (text : List Char) : Bool :=
  let date := text.take 10
  let rest := text.drop 10
  if isTime text then true
  else if !isDate date then false
  else
    match rest with
    | [] => true
    | mark :: rest =>
      let time := rest.takeWhile fun c => isDecimal c || c = ':' || c = '.'
      let offset := rest.drop time.length
      (mark = 'T' || mark = 't' || mark = ' ') && isTime time &&
        (offset.isEmpty || isOffset offset)

/-- The letters that numbers, truth values and dates are made of. -/
def isScalarChar (c : Char) : Bool :=
  c.isAlphanum || c = '_' || c = '-' || c = '+' || c = '.' || c = ':'

/-- A value that is written without quotes or brackets. A blank may stand between a day and a
time. -/
def scalar : Reader Node := do
  let word ← takeWhile isScalarChar
  let word ←
    if isDate word then
      match ← get with
      | ' ' :: c :: _ =>
        if isDecimal c then do
          skip 1
          let time ← takeWhile isScalarChar
          pure (word ++ ' ' :: time)
        else pure word
      | _ => pure word
    else pure word
  match scalar? word with
  | some node => return node
  | none => if isDatetime word then return .datetime else refuse

mutual

def value (fuel : Nat) : Reader Node := do
  match fuel with
  | 0 => refuse
  | fuel + 1 =>
    let size := (← get).length + 1
    if ← accept "\"\"\"" then
      let _ ← acceptNewline
      return .text (← longBasicString [] size)
    else if ← accept "\x27\x27\x27" then
      let _ ← acceptNewline
      return .text (← longLiteralString [] size)
    else if ← accept "\"" then return .text (← basicString [] size)
    else if ← accept "\x27" then return .text (← literalString)
    else if ← accept "[" then return .array (← arrayItems fuel)
    else if ← accept "\x7b" then
      skipBlanks
      if ← accept "\x7d" then return .inlineTable []
      return .inlineTable (← inlineEntries fuel [])
    else scalar

/-- The items of an array up to the closing bracket; a comma may follow the last one. -/
def arrayItems (fuel : Nat) : Reader (List Node) := do
  match fuel with
  | 0 => refuse
  | fuel + 1 =>
    skipLines (← get).length
    if ← accept "]" then return []
    let item ← value fuel
    skipLines (← get).length
    if ← accept "," then return item :: (← arrayItems fuel)
    expect "]"
    return [item]

/-- The entries of a table in braces up to the closing one. -/
def inlineEntries (fuel : Nat) (entries : Entries) : Reader Entries := do
  match fuel with
  | 0 => refuse
  | fuel + 1 =>
    let (first, path) ← key
    skipBlanks
    expect "="
    skipBlanks
    let node ← value fuel
    match entries.insert first path node with
    | none => refuse
    | some entries =>
      skipBlanks
      if ← accept "," then inlineEntries fuel entries
      else
        expect "\x7d"
        return entries

end

/-- A document in the making: all of it, and the header path of the current table. -/
structure Document where
  root : Entries := []
  path : List String := []

/-- Splits a key into the parts before its last one, and the last one. -/
def splitKey (first : String) (rest : List String) : List String × String :=
  ((first :: rest).dropLast, (first :: rest).getLast?.getD first)

/-- One line: a header, a key with its value, or nothing. -/
def line (d : Document) : Reader Document := do
  skipBlanks
  if ← accept "[[" then
    let (first, rest) ← key
    skipBlanks
    expect "]]"
    endOfLine
    let (path, last) := splitKey first rest
    match Entries.update d.root path (Entries.openElement last) with
    | some root => return { root, path := path ++ [last] }
    | none => refuse
  else if ← accept "[" then
    let (first, rest) ← key
    skipBlanks
    expect "]"
    endOfLine
    let (path, last) := splitKey first rest
    match Entries.update d.root path (Entries.openTable last) with
    | some root => return { root, path := path ++ [last] }
    | none => refuse
  else
    match ← peek with
    | none | some '#' | some '\n' | some '\r' =>
      endOfLine
      return d
    | some _ =>
      let (first, rest) ← key
      skipBlanks
      expect "="
      skipBlanks
      let node ← value (2 * (← get).length + 2)
      endOfLine
      let inserted (entries : Entries) := Entries.insert entries first rest node
      match Entries.update d.root d.path inserted with
      | some root => return { d with root }
      | none => refuse

def lines (d : Document) : Nat → Reader Document
  | 0 => return d
  | fuel + 1 => do
    if (← get).isEmpty then return d
    lines (← line d) fuel

/-- The entries of a document; a byte-order mark at its start is skipped. -/
def read? (text : List Char) : Option Entries :=
  let text :=
    match text with
    | c :: rest => if c.toNat = 0xfeff then rest else text
    | [] => []
  match (lines {} (text.length + 1)).run text with
  | some (d, []) => some d.root
  | _ => none

end Toml

end CoopScript
