import CoopScript.RegisterStack

/-! Windows: views of the register stack from an offset on. A call finds its arguments in its
window, up to the cursor, and leaves its results in the same place. -/

namespace CoopScript

structure Window where
  offset : Nat
  deriving DecidableEq, Inhabited

namespace Window

/-- The window `extra` slots further in. -/
def shift (w : Window) (extra : Nat) : Window := ⟨w.offset + extra⟩

/-- How many slots the window has. -/
def size (w : Window) (s : RegisterStack) : Nat := s.capacity - w.offset

/-- The cursor as the window sees it; zero when it lies below. -/
def top (w : Window) (s : RegisterStack) : Nat := s.top - w.offset

def get (w : Window) (s : RegisterStack) (i : Nat) : Value := s.get (w.offset + i)

def set (w : Window) (s : RegisterStack) (i : Nat) (v : Value) : RegisterStack :=
  s.set (w.offset + i) v

/-- A register below the cursor; there is nil from the cursor on. -/
def arg (w : Window) (s : RegisterStack) (i : Nat) : Value :=
  if i < w.top s then w.get s i else .nil

/-- The values below the cursor: arguments on entry, results on return. -/
def values (w : Window) (s : RegisterStack) : List Value :=
  s.slice w.offset (w.offset + w.top s)

def setTop (w : Window) (n : Nat) : StackM Unit := RegisterStack.setTop (w.offset + n)

/-- Moves a register out, leaving nil. -/
def take (w : Window) (i : Nat) : StackM Value := do
  let held := w.get (← getThe RegisterStack) i
  modify fun s => w.set s i .nil
  return held

/-- Appends one value at the cursor as the window sees it. -/
def push (w : Window) (v : Value) : StackM Unit := do
  let s ← getThe RegisterStack
  if w.size s ≤ w.top s then throw (.insufficientSpace 1 0)
  modify fun s => w.set s (w.top s) v
  RegisterStack.setTop (w.offset + w.top s + 1)

/-- Appends values at the cursor, which is first raised to the window if it lies below. -/
def pushAll (w : Window) (values : List Value) : StackM Unit := do
  if (← getThe RegisterStack).top < w.offset then RegisterStack.setTop w.offset
  RegisterStack.push values

/-- Replaces what the window holds by the values. -/
def ret (w : Window) (values : List Value) : StackM Unit := do
  w.setTop 0
  RegisterStack.push values

/-- Puts a value in front of what the window holds. -/
def prepend (w : Window) (v : Value) : StackM Unit := do
  let held := w.values (← getThe RegisterStack)
  w.setTop 0
  w.push v
  w.pushAll held

/-- Takes over the results that a callee left in its window, which lies at or above. -/
def returnFrom (w callee : Window) : StackM Unit := do
  let count := callee.top (← getThe RegisterStack)
  if callee.offset ≠ w.offset then modify fun s => s.move callee.offset w.offset count
  w.setTop count

end Window

/-- Lowers or raises the cursor to `base` and gives the window there. -/
def RegisterStack.window (base : Nat) : StackM Window := do
  RegisterStack.setTop base
  return ⟨base⟩

end CoopScript
