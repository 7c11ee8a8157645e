import CoopScript.Pattern.Program
import CoopScript.Pattern.Reader

/-! Searching text for a pattern. The leftmost match is found, and of the matches there the
one preferred by the pattern. No node is visited twice at one position. -/

namespace CoopScript

namespace Pattern

/-- A match: the bounds of the groups that took part, in characters; the first is the whole. -/
structure Found where
  start : Nat
  stop : Nat
  groups : List (Option (Nat × Nat))
  deriving DecidableEq

/-- What finds a match in a text, from a position on. -/
abbrev Searcher := Array Char → Nat → Option Found

def wordAt (text : Array Char) (i : Nat) : Bool :=
  match text[i]? with
  | some c => isWordChar c
  | none => false

/-- Whether a word character precedes the position. -/
def wordBefore (text : Array Char) (i : Nat) : Bool := i ≠ 0 && wordAt text (i - 1)

def charBefore? (text : Array Char) (i : Nat) : Option Char :=
  if i = 0 then none else text[i - 1]?

def Assertion.holds (a : Assertion) (text : Array Char) (i : Nat) : Bool :=
  match a with
  | .textStart => i == 0
  | .textEnd => i == text.size
  | .lineStart => i == 0 || charBefore? text i == some '\n'
  | .lineEnd => i == text.size || text[i]? == some '\n'
  | .lineStartCrlf =>
    i == 0 || charBefore? text i == some '\n' ||
      (charBefore? text i == some '\r' && text[i]? != some '\n')
  | .lineEndCrlf =>
    i == text.size || text[i]? == some '\r' ||
      (text[i]? == some '\n' && charBefore? text i != some '\r')
  | .wordBound => wordBefore text i != wordAt text i
  | .noWordBound => wordBefore text i == wordAt text i
  | .wordStart => !wordBefore text i && wordAt text i
  | .wordEnd => wordBefore text i && !wordAt text i

/-- A way that is still to be tried: a node, a position, and the group bounds so far. -/
structure Way where
  node : Nat
  position : Nat
  slots : List (Nat × Nat)

/-- The latest record of a slot. -/
def slot? (slots : List (Nat × Nat)) (slot : Nat) : Option Nat := slots.lookup slot

def Way.found (program : Program) (way : Way) (start : Nat) : Found :=
  ⟨start, way.position,
    (List.range program.groups).map fun g =>
      match slot? way.slots (2 * g), slot? way.slots (2 * g + 1) with
      | some a, some b => some (a, b)
      | _, _ => none⟩

/-- The ways on from a node, the preferred one first. -/
def Way.onward (program : Program) (text : Array Char) (way : Way) : List Way :=
  match program.nodes[way.node]? with
  | some (.char set next) =>
    match text[way.position]? with
    | some c => if set.holds c then [⟨next, way.position + 1, way.slots⟩] else []
    | none => []
  | some (.assertion a next) =>
    if Assertion.holds a text way.position then [{ way with node := next }] else []
  | some (.split first second) => [{ way with node := first }, { way with node := second }]
  | some (.save slot next) => [⟨next, way.position, (slot, way.position) :: way.slots⟩]
  | _ => []

/-- Walks the ways in order until one accepts. `visited` marks the pairs of node and position
that have been walked already. -/
def walk (program : Program) (text : Array Char) (start : Nat) (fuel : Nat)
    (visited : Array Bool) (ways : List Way) : Option Found × Array Bool :=
  match fuel, ways with
  | fuel + 1, way :: others =>
    let mark := way.position * program.nodes.size + way.node
    if visited.getD mark true then walk program text start fuel visited others
    else
      match program.nodes[way.node]? with
      | some .accept => (some (way.found program start), visited)
      | _ =>
        walk program text start fuel (visited.setIfInBounds mark true)
          (way.onward program text ++ others)
  | _, _ => (none, visited)

/-- Tries the positions from `start` on, `count` of them. -/
def tryFrom (program : Program) (text : Array Char) (start : Nat) (count : Nat)
    (visited : Array Bool) : Option Found :=
  match count with
  | 0 => none
  | count + 1 =>
    let fuel := 2 * visited.size + 2
    match walk program text start fuel visited [⟨program.entry, start, []⟩] with
    | (some found, _) => some found
    | (none, visited) => tryFrom program text (start + 1) count visited

/-- The match that a search from the position finds; it sees the text before it. -/
def Program.search? (program : Program) (text : Array Char) (start : Nat) : Option Found :=
  let visited := Array.replicate (program.nodes.size * (text.size + 1)) false
  tryFrom program text start (text.size + 1 - start) visited

/-- The program of a written pattern, unless it is malformed. -/
def program? (text : List Char) : Option Program := (read? text).map compile

end Pattern

end CoopScript
