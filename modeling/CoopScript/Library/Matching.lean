import CoopScript.Pattern.Search
import CoopScript.Value

/-! Going through the matches of a pattern in a text, as iteration and substitution do. -/

namespace CoopScript

namespace Pattern

def sliceText (text : Array Char) (start stop : Nat) : String :=
  String.ofList (text.extract start stop).toList

/-- The text of a group, or nil if it took no part. -/
def groupValue (text : Array Char) : Option (Nat × Nat) → Value
  | some (start, stop) => .str (sliceText text start stop)
  | none => .nil

/-- The captures of a match: its groups, or the whole match if it has none. -/
def Found.captures (found : Found) (text : Array Char) : List Value :=
  match found.groups with
  | _ :: g :: rest => (g :: rest).map (groupValue text)
  | _ => [.str (sliceText text found.start found.stop)]

/-- The next match from a position on. An empty match where the last one ended is passed
over, by one character at a time. -/
def next? (search : Searcher) (text : Array Char) (position : Nat) (last : Option Nat) :
    Nat → Option Found
  | 0 => none
  | fuel + 1 =>
    match search text position with
    | none => none
    | some found =>
      if found.start = found.stop && last = some found.stop then
        if position < text.size then next? search text (position + 1) last fuel else none
      else some found

/-- An iteration over the matches of a pattern. -/
structure Cursor where
  subject : Array Char
  search : Searcher
  position : Nat := 0
  last : Option Nat := none

namespace Cursor

/-- The next match of an iteration. -/
def peek? (c : Cursor) : Option Found :=
  if c.position ≤ c.subject.size then
    next? c.search c.subject c.position c.last (c.subject.size + 1 - c.position)
  else none

/-- The captures of the next match and the iteration after it; at the end there is nil, for
ever after. -/
def advance (c : Cursor) : List Value × Cursor :=
  match c.peek? with
  | some found =>
    (found.captures c.subject, { c with position := found.stop, last := some found.stop })
  | none => ([.nil], { c with position := c.subject.size + 1 })

end Cursor

end Pattern

end CoopScript
