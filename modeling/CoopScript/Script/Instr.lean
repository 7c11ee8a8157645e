import CoopScript.Cost

/-! Instructions of script functions. Registers are counted from the frame's base, jump
targets from the start of the code. -/

namespace CoopScript

inductive ArithOp where
  | add
  | sub
  | mul
  | div
  | mod
  deriving DecidableEq, Repr

inductive CompareOp where
  | eq
  | lt
  | le
  deriving DecidableEq, Repr

inductive Instr where
  | loadConst (dst index : Nat)
  | loadNil (dst : Nat)
  | move (dst src : Nat)
  | arith (op : ArithOp) (dst lhs rhs : Nat)
  | compare (op : CompareOp) (dst lhs rhs : Nat)
  | concat (dst lhs rhs : Nat)
  | jump (target : Nat)
  | jumpIfNot (cond target : Nat)
  | getField (dst table key : Nat)
  /-- Calls the value in `base` with the `nargs` registers above it and leaves `nresults`
  results from `base` on. -/
  | call (base nargs nresults : Nat)
  | ret (first count : Nat)
  /-- Takes the cost from the budget. -/
  | charge (cost : Nat)
  /-- Suspends if the budget is spent. -/
  | tick
  deriving DecidableEq, Repr

namespace Instr

def category : Instr → Option OpCategory
  | loadConst .. | loadNil .. => some .load
  | move .. => some .move
  | arith .. => some .arith
  | compare .. => some .compare
  | concat .. => some .concat
  | jump .. | jumpIfNot .. => some .jump
  | getField .. => some .index
  | call .. => some .call
  | ret .. => some .ret
  | charge .. | tick => none

def isAccounting : Instr → Bool
  | charge .. | tick => true
  | _ => false

def target? : Instr → Option Nat
  | jump target | jumpIfNot _ target => some target
  | _ => none

/-- The instruction with its jump target replaced. Targets are words of 32 bits. -/
def retarget (f : Nat → Nat) : Instr → Instr
  | jump target => jump (f target % UInt32.size)
  | jumpIfNot cond target => jumpIfNot cond (f target % UInt32.size)
  | i => i

/-- Whether the instruction that follows starts a block. -/
def endsBlock : Instr → Bool
  | jump .. | jumpIfNot .. | call .. | ret .. => true
  | _ => false

end Instr

end CoopScript
