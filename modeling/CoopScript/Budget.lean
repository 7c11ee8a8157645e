import CoopScript.Cost

/-! The preemption budget. A drain starts with a full slice; charges take from it, and it is
spent once it has fallen to the low-water mark. Without a slice nothing is ever taken. -/

namespace CoopScript

structure Preemption where
  /-- The slice of a drain; none disables preemption. -/
  budget : Option Nat := some 10000
  lowWaterMark : Int := 0
  costs : CostTable := {}
  deriving DecidableEq, Inhabited

structure Budget where
  remaining : Int
  slice : Option Nat
  lowWaterMark : Int
  preemptions : Nat
  deriving DecidableEq, Inhabited

namespace Budget

/-- The greatest and the least amount that can remain. -/
def most : Int := Int64.maxValue.toInt

def least : Int := Int64.minValue.toInt

def refill (b : Budget) : Budget :=
  { b with remaining := match b.slice with | some n => min (n : Int) most | none => most }

def new (p : Preemption) : Budget :=
  refill ⟨0, p.budget, p.lowWaterMark, 0⟩

def isEnabled (b : Budget) : Bool := b.slice.isSome

def charge (b : Budget) (cost : Nat) : Budget :=
  if b.isEnabled then { b with remaining := max (b.remaining - cost) least } else b

def isExhausted (b : Budget) : Bool := b.isEnabled && decide (b.remaining ≤ b.lowWaterMark)

def recordPreemption (b : Budget) : Budget := { b with preemptions := b.preemptions + 1 }

end Budget

end CoopScript
