import CoopScript.Pattern.Basic

/-! Reading patterns from text. Flags change how the rest of the enclosing group is read, and
every text outside the grammar is malformed. -/

namespace CoopScript

namespace Pattern

structure Flags where
  ignoreCase : Bool := false
  multiLine : Bool := false
  dotAll : Bool := false
  swapGreed : Bool := false
  crlf : Bool := false
  /-- Blanks and comments between the parts of the pattern are skipped. -/
  spaced : Bool := false

structure Reading where
  rest : List Char
  flags : Flags := {}
  groups : Nat := 1
  names : List String := []

/-- A reader of a part of a pattern; it gives nothing when the text is malformed. -/
abbrev Reader := StateT Reading Option

namespace Reader

def malformed {α : Type} : Reader α := fun _ => none

def peek : Reader (Option Char) := do return (← get).rest.head?

def skip (count : Nat) : Reader Unit := modify fun s => { s with rest := s.rest.drop count }

/-- What is left after blanks and comments, each of which runs to the end of its line. -/
def afterSpace (fuel : Nat) (text : List Char) : List Char :=
  match fuel, text with
  | fuel + 1, '#' :: rest => afterSpace fuel (rest.dropWhile (· ≠ '\n'))
  | fuel + 1, c :: rest => if isBlank c then afterSpace fuel rest else c :: rest
  | _, text => text

def skipSpace : Reader Unit :=
  modify fun s =>
    if s.flags.spaced then { s with rest := afterSpace s.rest.length s.rest } else s

/-- Skips the text if it comes next, and tells whether it does. -/
def accept (text : String) : Reader Bool := do
  let s ← get
  if text.toList.isPrefixOf s.rest then
    skip text.length
    return true
  return false

def expect (text : String) : Reader Unit := do
  if !(← accept text) then malformed

def next : Reader Char := do
  match (← get).rest with
  | c :: rest =>
    modify fun s => { s with rest }
    return c
  | [] => malformed

end Reader

open Reader

def isHexDigit (c : Char) : Bool :=
  ('0' ≤ c && c ≤ '9') || ('a' ≤ c && c ≤ 'f') || ('A' ≤ c && c ≤ 'F')

def hexValue (text : List Char) : Nat :=
  text.foldl (fun n c =>
    n * 16 + (if c ≤ '9' then c.toNat - 48 else if c ≤ 'F' then c.toNat - 55 else c.toNat - 87)) 0

def ofCode (code : Nat) : Reader Char :=
  if code.isValidChar then return Char.ofNat code else malformed

/-- The code after a hexadecimal escape: `count` digits, or any number in braces. -/
def hexEscape (count : Nat) : Reader Char := do
  if ← accept "\x7b" then
    let digits := (← get).rest.takeWhile isHexDigit
    skip digits.length
    expect "\x7d"
    if digits.isEmpty then malformed else ofCode (hexValue digits)
  else
    let digits := (← get).rest.take count
    if digits.length = count && digits.all isHexDigit then
      skip count
      ofCode (hexValue digits)
    else malformed

def isMeta (c : Char) : Bool := "\\.+*?()|[]\x7b\x7d^$#&-~".toList.contains c

/-- A character that may follow a backslash to stand for itself. -/
def isEscapable (c : Char) : Bool :=
  isMeta c || (c.toNat < 128 && !c.isAlphanum && c ≠ '<' && c ≠ '>')

inductive Escape where
  | literal (c : Char)
  | set (c : CharClass)
  | assertion (a : Assertion)

/-- The kinds of word boundary that `\b` may name in braces. -/
def wordBoundary : Reader Assertion := do
  if ← accept "\x7bstart\x7d" then return .wordStart
  if ← accept "\x7bend\x7d" then return .wordEnd
  return .wordBound

/-- What follows a backslash. -/
def escape : Reader Escape := do
  let c ← next
  match c with
  | 'd' => return .set .digit
  | 'D' => return .set (.negation .digit)
  | 'w' => return .set .word
  | 'W' => return .set (.negation .word)
  | 's' => return .set .blank
  | 'S' => return .set (.negation .blank)
  | 'x' => return .literal (← hexEscape 2)
  | 'u' => return .literal (← hexEscape 4)
  | 'U' => return .literal (← hexEscape 8)
  | 'a' => return .literal '\x07'
  | 'f' => return .literal '\x0c'
  | 't' => return .literal '\t'
  | 'n' => return .literal '\n'
  | 'r' => return .literal '\r'
  | 'v' => return .literal '\x0b'
  | 'A' => return .assertion .textStart
  | 'z' => return .assertion .textEnd
  | 'b' => return .assertion (← wordBoundary)
  | 'B' => return .assertion .noWordBound
  | '<' => return .assertion .wordStart
  | '>' => return .assertion .wordEnd
  | c => if isEscapable c then return .literal c else malformed

def rangeClass (flags : Flags) (first last : Nat) : CharClass :=
  if flags.ignoreCase then .foldedRange first last else .range first last

/-- One end of a range in brackets, or a class on its own. -/
def bracketItem : Reader Escape := do
  let c ← next
  if c = '\\' then escape else return .literal c

/-- The next character that is not the current one, blanks aside where they are skipped. -/
def peekSecond : Reader (Option Char) := do
  let s ← get
  let rest := s.rest.drop 1
  return (if s.flags.spaced then afterSpace rest.length rest else rest).head?

/-- A character, a class or a range in brackets. -/
def bracketRange : Reader CharClass := do
  let first ← bracketItem
  skipSpace
  let flags := (← get).flags
  match ← peek with
  | none => malformed
  | some '-' =>
    let after ← peekSecond
    if after = some ']' || after = some '-' then
      match first with
      | .literal c => return rangeClass flags c.toNat c.toNat
      | .set c => return c
      | .assertion _ => malformed
    else
      skip 1
      skipSpace
      let last ← bracketItem
      match first, last with
      | .literal a, .literal b =>
        if a.toNat ≤ b.toNat then return rangeClass flags a.toNat b.toNat else malformed
      | _, _ => malformed
  | some _ =>
    match first with
    | .literal c => return rangeClass flags c.toNat c.toNat
    | .set c => return c
    | .assertion _ => malformed

/-- A named class such as `[:alpha:]`, if one comes next. -/
def namedClass? : Reader (Option CharClass) := do
  let s ← get
  match s.rest with
  | '[' :: ':' :: rest =>
    let (negated, rest) :=
      match rest with
      | '^' :: rest => (true, rest)
      | _ => (false, rest)
    let name := rest.takeWhile (· ≠ ':')
    match CharClass.named? (String.ofList name), rest.drop name.length with
    | some ranges, ':' :: ']' :: rest =>
      let set := ranges.foldl (fun set (a, b) => .union set (rangeClass s.flags a b)) CharClass.none
      modify fun s => { s with rest }
      return some (if negated then .negation set else set)
    | _, _ => return none
  | _ => return none

inductive SetOperation where
  | intersection
  | difference
  | symmetricDifference

/-- The operand that waits for a set operation, joined with the one that ended. -/
def joinSets (waiting : Option (SetOperation × CharClass)) (set : CharClass) : CharClass :=
  match waiting with
  | none => set
  | some (.intersection, left) => .intersection left set
  | some (.difference, left) => .difference left set
  | some (.symmetricDifference, left) => .symmetricDifference left set

/-- Hyphens at the start of a bracket stand for themselves. -/
def leadingHyphens (fuel : Nat) (set : CharClass) : Reader CharClass := do
  match fuel with
  | 0 => return set
  | fuel + 1 =>
    match ← peek with
    | some '-' =>
      skip 1
      skipSpace
      leadingHyphens fuel (.union set (rangeClass (← get).flags 45 45))
    | _ => return set

mutual

/-- A class after its opening bracket, up to and including the closing one. -/
def bracket (fuel : Nat) : Reader CharClass := do
  match fuel with
  | 0 => malformed
  | fuel + 1 =>
    skipSpace
    let negated ← accept "^"
    if negated then skipSpace
    let set ← leadingHyphens fuel .none
    let set ←
      if set = .none && (← peek) = some ']' then do
        skip 1
        skipSpace
        pure (rangeClass (← get).flags 93 93)
      else pure set
    let set ← bracketItems fuel none set
    return if negated then .negation set else set

/-- The items of a class, with the set they are added to. -/
def bracketItems (fuel : Nat) (waiting : Option (SetOperation × CharClass)) (set : CharClass) :
    Reader CharClass := do
  match fuel with
  | 0 => malformed
  | fuel + 1 =>
    skipSpace
    match ← peek with
    | none => malformed
    | some ']' =>
      skip 1
      return joinSets waiting set
    | some '[' =>
      match ← namedClass? with
      | some named => bracketItems fuel waiting (.union set named)
      | none =>
        skip 1
        let inner ← bracket fuel
        bracketItems fuel waiting (.union set inner)
    | some _ =>
      if ← accept "&&" then
        bracketItems fuel (some (.intersection, joinSets waiting set)) .none
      else if ← accept "--" then
        bracketItems fuel (some (.difference, joinSets waiting set)) .none
      else if ← accept "~~" then
        bracketItems fuel (some (.symmetricDifference, joinSets waiting set)) .none
      else
        let item ← bracketRange
        bracketItems fuel waiting (.union set item)

end

/-- The flag that a letter sets or clears. -/
def Flags.set? (flags : Flags) (letter : Char) (value : Bool) : Option Flags :=
  match letter with
  | 'i' => some { flags with ignoreCase := value }
  | 'm' => some { flags with multiLine := value }
  | 's' => some { flags with dotAll := value }
  | 'U' => some { flags with swapGreed := value }
  | 'R' => some { flags with crlf := value }
  | 'x' => some { flags with spaced := value }
  | 'u' => if value then some flags else none
  | _ => none

/-- Letters of flags, each at most once, with at most one minus before the ones to clear. It
stops before the closing bracket or the colon and gives the letters read. -/
def flagLetters (fuel : Nat) (seen : List Char) (negated : Bool) (flags : Flags) :
    Reader (List Char × Flags) := do
  match fuel with
  | 0 => malformed
  | fuel + 1 =>
    match ← peek with
    | none => malformed
    | some ')' | some ':' =>
      if seen.head? = some '-' then malformed else return (seen, flags)
    | some '-' =>
      if negated then malformed
      else
        skip 1
        flagLetters fuel ('-' :: seen) true flags
    | some letter =>
      if seen.contains letter then malformed
      else
        match flags.set? letter (!negated) with
        | none => malformed
        | some flags =>
          skip 1
          flagLetters fuel (letter :: seen) negated flags

/-- A number in braces, with blanks around it. -/
def count? : Reader (Option Nat) := do
  let skipBlanks : Reader Unit := modify fun s => { s with rest := s.rest.dropWhile isBlank }
  skipBlanks
  let digits := (← get).rest.takeWhile Char.isDigit
  skip digits.length
  skipBlanks
  if digits.isEmpty then return none
  let value := digits.foldl (fun n c => n * 10 + (c.toNat - 48)) 0
  if value < UInt32.size then return some value else malformed

/-- The bounds of a repetition after the opening brace, up to the closing one. -/
def bounds : Reader (Nat × Option Nat) := do
  let first ← count?
  if ← accept "," then
    skipSpace
    if ← accept "\x7d" then
      match first with
      | some min => return (min, none)
      | none => malformed
    else
      let last ← count?
      expect "\x7d"
      match first, last with
      | some min, some max => if min ≤ max then return (min, some max) else malformed
      | _, _ => malformed
  else
    expect "\x7d"
    match first with
    | some n => return (n, some n)
    | none => malformed

def dot (flags : Flags) : CharClass :=
  if flags.dotAll then .range 0 0x10ffff
  else if flags.crlf then .negation (.union (.range 10 10) (.range 13 13))
  else .negation (.range 10 10)

def lineStart (flags : Flags) : Assertion :=
  if flags.multiLine then if flags.crlf then .lineStartCrlf else .lineStart else .textStart

def lineEnd (flags : Flags) : Assertion :=
  if flags.multiLine then if flags.crlf then .lineEndCrlf else .lineEnd else .textEnd

/-- A part of a sequence: something that can be repeated, or a change of flags. -/
inductive Item where
  | part (p : Pattern)
  | flags

/-- The sequence of items that were read, last first. -/
def sequence (items : List Item) : Pattern :=
  items.foldl (fun tail item =>
    match item, tail with
    | .part p, .empty => p
    | .part p, tail => .concat p tail
    | .flags, tail => tail) .empty

def alternatives (earlier : Option Pattern) (items : List Item) : Pattern :=
  match earlier with
  | none => sequence items
  | some first => .alternative first (sequence items)

/-- The last item repeated; the mark for the other preference may follow. -/
def repeatLast (items : List Item) (min : Nat) (max : Option Nat) : Reader (List Item) := do
  let lazily ← accept "?"
  match items with
  | .part p :: earlier =>
    return .part (repeated p min max (lazily == (← get).flags.swapGreed)) :: earlier
  | _ => malformed

def isNameChar (first : Bool) (c : Char) : Bool :=
  c = '_' || (isWordChar c && !(first && isDecimalDigit c)) ||
    (!first && (c = '.' || c = '[' || c = ']'))

/-- The name of a group, up to and including the closing angle. No two groups share one. -/
def groupName : Reader Unit := do
  let name := (← get).rest.takeWhile (· ≠ '>')
  skip name.length
  expect ">"
  let text := String.ofList name
  match name with
  | [] => malformed
  | first :: rest =>
    if !isNameChar true first || !rest.all (isNameChar false) then malformed
    else if (← get).names.contains text then malformed
    else modify fun s => { s with names := text :: s.names }

/-- The index of the next numbered group. -/
def nextGroup : Reader Nat := do
  let index := (← get).groups
  modify fun s => { s with groups := s.groups + 1 }
  return index

inductive GroupHead where
  | numbered (index : Nat)
  | plain
  | flagsOnly

/-- What stands between an opening parenthesis and the body of the group. -/
def groupHead : Reader GroupHead := do
  skipSpace
  let s ← get
  if ["?=", "?!", "?<=", "?<!"].any fun mark => mark.toList.isPrefixOf s.rest then malformed
  else if (← accept "?P<") || (← accept "?<") then
    let index ← nextGroup
    groupName
    return .numbered index
  else if ← accept "?" then
    let (letters, flags) ← flagLetters s.rest.length [] false s.flags
    modify fun s => { s with flags }
    if ← accept ":" then return .plain
    expect ")"
    if letters.isEmpty then malformed else return .flagsOnly
  else return .numbered (← nextGroup)

/-- The alternatives of a group, up to the parenthesis that closes it or the end of the text,
given those already read and the items of the current one, last first. -/
def body (fuel : Nat) (earlier : Option Pattern) (items : List Item) : Reader Pattern := do
  match fuel with
  | 0 => malformed
  | fuel + 1 =>
    skipSpace
    let flags := (← get).flags
    match ← peek with
    | none | some ')' => return alternatives earlier items
    | some '|' =>
      skip 1
      body fuel (some (alternatives earlier items)) []
    | some '(' =>
      skip 1
      match ← groupHead with
      | .flagsOnly => body fuel earlier (.flags :: items)
      | .plain =>
        let inner ← body fuel none []
        expect ")"
        modify fun s => { s with flags }
        body fuel earlier (.part inner :: items)
      | .numbered index =>
        let inner ← body fuel none []
        expect ")"
        modify fun s => { s with flags }
        body fuel earlier (.part (.group index inner) :: items)
    | some '[' =>
      skip 1
      let set ← bracket ((← get).rest.length + 2)
      body fuel earlier (.part (.char set) :: items)
    | some '*' =>
      skip 1
      body fuel earlier (← repeatLast items 0 none)
    | some '+' =>
      skip 1
      body fuel earlier (← repeatLast items 1 none)
    | some '?' =>
      skip 1
      body fuel earlier (← repeatLast items 0 (some 1))
    | some c =>
      skip 1
      if c.toNat = 0x7b then
        let (min, max) ← bounds
        skipSpace
        body fuel earlier (← repeatLast items min max)
      else if c = '\\' then
        match ← escape with
        | .literal c =>
          body fuel earlier (.part (.char (rangeClass flags c.toNat c.toNat)) :: items)
        | .set set => body fuel earlier (.part (.char set) :: items)
        | .assertion a => body fuel earlier (.part (.assertion a) :: items)
      else if c = '.' then body fuel earlier (.part (.char (dot flags)) :: items)
      else if c = '^' then body fuel earlier (.part (.assertion (lineStart flags)) :: items)
      else if c = '$' then body fuel earlier (.part (.assertion (lineEnd flags)) :: items)
      else body fuel earlier (.part (.char (rangeClass flags c.toNat c.toNat)) :: items)

/-- The pattern that a text writes, unless it is malformed or its program is too large. -/
def read? (text : List Char) : Option Pattern :=
  match (body (text.length + 1) none []).run { rest := text } with
  | some (pattern, s) =>
    if s.rest.isEmpty && decide (pattern.size ≤ sizeLimit) then some pattern else none
  | none => none

end Pattern

end CoopScript
