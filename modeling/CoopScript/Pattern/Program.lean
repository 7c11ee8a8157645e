import CoopScript.Pattern.Basic

/-! Programs of patterns: graphs of nodes that a search walks in order of preference. -/

namespace CoopScript

namespace Pattern

inductive Node where
  | char (set : CharClass) (next : Nat)
  | assertion (a : Assertion) (next : Nat)
  /-- Two ways on, the preferred one first. -/
  | split (first second : Nat)
  /-- Records the position as a bound of a group. -/
  | save (slot : Nat) (next : Nat)
  | accept
  deriving Inhabited

structure Program where
  nodes : Array Node
  entry : Nat
  /-- How many groups there are, the whole match included. -/
  groups : Nat

/-- Adds a node and gives its index. -/
def addNode (node : Node) : StateM (Array Node) Nat := do
  let index := (← get).size
  modify (·.push node)
  return index

/-- A choice between another round and the way out. -/
def choice (greedy : Bool) (round out : Nat) : Node :=
  if greedy then .split round out else .split out round

/-- `count` copies in a row, each compiled by `part` for the index that follows it. -/
def copies (part : Nat → StateM (Array Node) Nat) (count next : Nat) : StateM (Array Node) Nat := do
  match count with
  | 0 => return next
  | count + 1 => copies part count (← part next)

/-- At most `count` further copies, with a choice to leave before each. -/
def options (part : Nat → StateM (Array Node) Nat) (greedy : Bool) (count next out : Nat) :
    StateM (Array Node) Nat := do
  match count with
  | 0 => return next
  | count + 1 =>
    let entry ← part next
    let chosen ← addNode (choice greedy entry out)
    options part greedy count chosen out

/-- One or more rounds: the entry of the body, and the node that chooses after each round. -/
def rounds (part : Nat → StateM (Array Node) Nat) (greedy : Bool) (next : Nat) :
    StateM (Array Node) (Nat × Nat) := do
  let chooser ← addNode .accept
  let entry ← part chooser
  modify (·.setIfInBounds chooser (choice greedy entry next))
  return (entry, chooser)

/-- Adds the nodes of a pattern that goes on at `next`, and gives the index it starts at. A
body that can match the empty text is left by its own choice after a first round, which keeps
the order of preference. -/
def emit : Pattern → Nat → StateM (Array Node) Nat
  | .empty, next => return next
  | .char set, next => addNode (.char set next)
  | .assertion a, next => addNode (.assertion a next)
  | .concat a b, next => do
    let second ← emit b next
    emit a second
  | .alternative a b, next => do
    let first ← emit a next
    let second ← emit b next
    addNode (.split first second)
  | .group index body, next => do
    let close ← addNode (.save (2 * index + 1) next)
    let entry ← emit body close
    addNode (.save (2 * index) entry)
  | .repetition body min max greedy, next => do
    match max with
    | some max =>
      let optional ← options (emit body) greedy (max - min) next next
      copies (emit body) min optional
    | none =>
      let (entry, chooser) ← rounds (emit body) greedy next
      if min = 0 then
        if body.minLength.getD 0 > 0 then return chooser
        else addNode (choice greedy entry next)
      else copies (emit body) (min - 1) entry

def compile (p : Pattern) : Program :=
  let whole := (emit (.group 0 p) 0).run #[.accept]
  ⟨whole.2, whole.1, p.groupCount⟩

end Pattern

end CoopScript
