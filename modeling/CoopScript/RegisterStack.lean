import CoopScript.Error

/-! The register stack: a fixed number of slots and a cursor. Frames own no registers of
their own; each addresses the slots from its window's offset on. Lowering the cursor clears
the slots it passes. -/

namespace CoopScript

structure RegisterStack where
  slots : Array Value
  top : Nat
  deriving Inhabited

/-- Operations on a register stack. The stack after a failure is part of the outcome. -/
abbrev StackM := ExceptT StackError (StateM RegisterStack)

namespace RegisterStack

def new (capacity : Nat) : Except StackError RegisterStack :=
  if capacity = 0 then .error (.invalidCapacity capacity)
  else .ok ⟨Array.replicate capacity .nil, 0⟩

def capacity (s : RegisterStack) : Nat := s.slots.size

def isEmpty (s : RegisterStack) : Bool := s.top == 0

/-- The value of a slot; beyond the capacity there is only nil. -/
def get (s : RegisterStack) (i : Nat) : Value := s.slots.getD i .nil

def set (s : RegisterStack) (i : Nat) (v : Value) : RegisterStack :=
  { s with slots := s.slots.setIfInBounds i v }

/-- The values of the slots from `first` up to `last`, the latter excluded. -/
def slice (s : RegisterStack) (first last : Nat) : List Value := (s.slots.extract first last).toList

/-- Clears `count` slots from `first` on. -/
def clear (s : RegisterStack) (first : Nat) : Nat → RegisterStack
  | 0 => s
  | count + 1 => (s.set first .nil).clear (first + 1) count

/-- Writes the values to the slots from `first` on. -/
def write (s : RegisterStack) (first : Nat) : List Value → RegisterStack
  | [] => s
  | v :: rest => (s.set first v).write (first + 1) rest

/-- Moves `count` slots from `source` to `target` one by one, lowest first, leaving nil. -/
def move (s : RegisterStack) (source target : Nat) : Nat → RegisterStack
  | 0 => s
  | count + 1 =>
    ((s.set source .nil).set target (s.get source)).move (source + 1) (target + 1) count

/-- Puts the cursor at `height`; slots that it passes on the way down are cleared. -/
def setTop (height : Nat) : StackM Unit := do
  let capacity := (← getThe RegisterStack).capacity
  if capacity < height then throw (.outOfRange height capacity)
  modify fun s => { s.clear height (s.top - height) with top := height }

/-- Appends the values at the cursor, all or none. -/
def push (values : List Value) : StackM Unit := do
  let s ← getThe RegisterStack
  let available := s.capacity - s.top
  if available < values.length then throw (.insufficientSpace values.length available)
  modify fun s => { s.write s.top values with top := s.top + values.length }

/-- The stack with the cursor at the bottom and everything below the old cursor cleared. -/
def emptied (s : RegisterStack) : RegisterStack := { s.clear 0 s.top with top := 0 }

end RegisterStack

end CoopScript
