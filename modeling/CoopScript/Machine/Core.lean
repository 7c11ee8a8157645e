import CoopScript.Budget
import CoopScript.World

/-! What a running call works on: the shared world, and the register stack and budget of its
own executor. -/

namespace CoopScript

/-- The part of an executor that running code sees. -/
structure Context where
  stack : RegisterStack
  budget : Budget
  /-- Whether a drain is in progress, so that a suspension has somewhere to go. -/
  draining : Bool := false
  deriving Inhabited

structure Core where
  world : World
  context : Context
  deriving Inhabited

/-- Steps of running code. What a failed step has changed stays changed. -/
abbrev CoreM := ExceptT Failure (StateM Core)

namespace Core

def onStack {α : Type} (op : StackM α) : CoreM α := fun ⟨world, stack, budget, draining⟩ =>
  let (result, stack) := op.run stack
  (match result with | .ok a => .ok a | .error e => .error (.stack e),
    ⟨world, stack, budget, draining⟩)

def onWorld {α : Type} (op : WorldM α) : CoreM α := fun ⟨world, context⟩ =>
  let (result, world) := op.run world
  (result, ⟨world, context⟩)

def getWorld : CoreM World := do return (← get).world

def getStack : CoreM RegisterStack := do return (← get).context.stack

def modifyStack (f : RegisterStack → RegisterStack) : CoreM Unit :=
  modify fun ⟨world, stack, budget, draining⟩ => ⟨world, f stack, budget, draining⟩

def modifyBudget (f : Budget → Budget) : CoreM Unit :=
  modify fun ⟨world, stack, budget, draining⟩ => ⟨world, stack, f budget, draining⟩

/-- Whether the budget is spent, which counts as a preemption. -/
def tick : CoreM Bool := do
  if (← get).context.budget.isExhausted then
    modifyBudget Budget.recordPreemption
    return true
  else return false

end Core

/-- Something to be called or looked up in a window. -/
inductive Request where
  | value (callee : Value)
  | function (f : FunctionId)
  | index (object key : Value)
  | text (v : Value)

/-- What is being done at the moment. -/
inductive Activity where
  /-- A call has left its results in its window; whoever waits for them is next. -/
  | returned
  | dispatch (r : Request) (w : Window)
  | enter (f : FunctionId) (w : Window)
  | resume (f : FunctionId) (w : Window) (s : Saved)
  /-- A script is about to run the instruction at `pc`. -/
  | running (f : FunctionId) (w : Window) (pc : Nat)

/-- Where a step leads. -/
inductive Move where
  | go (a : Activity)
  /-- The frame waits while a request is served in a window. -/
  | call (frame : Frame) (r : Request) (w : Window)
  | suspend (reason : SuspendReason) (frame : Frame)

end CoopScript
