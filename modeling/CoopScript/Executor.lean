import CoopScript.Config
import CoopScript.Machine.Basic

/-! Executors: one top-level call at a time, driven by drains. A drain runs the call until it
finishes, fails or is suspended; a suspended call is drained again. -/

namespace CoopScript

inductive ExecState where
  | idle
  | paused
  | finished
  deriving DecidableEq

def ExecState.name : ExecState → String
  | idle => "idle"
  | paused => "paused"
  | finished => "finished"

inductive Drain where
  | paused
  | finished
  deriving DecidableEq

structure Executor where
  context : Context
  /-- The frames that are to be resumed, in order. -/
  callStack : List Frame := []
  state : ExecState := .idle
  /-- Why the call was last suspended. -/
  lastReason : Option SuspendReason := none
  deriving Inhabited

namespace Executor

def new (config : EngineConfig) : Except StackError Executor := do
  let stack ← RegisterStack.new config.stackCapacity
  return { context := { stack, budget := Budget.new config.preemption } }

def onStack {α : Type} (e : Executor) (op : StackM α) : Except Failure α × Executor :=
  let (result, stack) := op.run e.context.stack
  (match result with | .ok a => .ok a | .error err => .error (.stack err),
    { e with context := { e.context with stack } })

/-- The executor with an empty register stack. -/
def cleared (e : Executor) : Executor :=
  { e with context := { e.context with stack := e.context.stack.emptied } }

/-- Sets a call up as the pending one. Only one call can be pending. -/
def pushCall (e : Executor) (f : FunctionId) (args : List Value) : Except Failure Unit × Executor :=
  if !e.callStack.isEmpty then (.error (.protocol .alreadyPaused), e)
  else
    match e.cleared.onStack ((⟨0⟩ : Window).pushAll args) with
    | (.ok (), e) =>
      (.ok (), { e with callStack := [⟨f, ⟨0⟩, none⟩], state := .paused, lastReason := none })
    | (.error err, e) => (.error err, e)

/-- The machine that runs the pending call in a drain, with a full budget. -/
def machine (e : Executor) (w : World) : Machine :=
  { core := ⟨w, { e.context with budget := e.context.budget.refill, draining := true }⟩
    pending := e.callStack }

/-- The executor after a drain that came to rest as told. A failure drops the call. -/
def settled (e : Executor) (h : Halt) (m : Machine) : Except Failure Drain × Executor :=
  let e := { e with context := { m.core.context with draining := false } }
  match h with
  | .finished => (.ok .finished, { e with callStack := [], state := .finished })
  | .paused reason =>
    (.ok .paused, { e with callStack := m.pending, lastReason := some reason })
  | .failed err => (.error err, { e.cleared with callStack := [], state := .idle })

/-- Runs the pending call. Nothing comes back if the fuel does not last. -/
def drain (fuel : Nat) (w : World) (e : Executor) :
    Option (Except Failure Drain × World × Executor) :=
  if e.callStack.isEmpty then some (.error (.protocol .noPendingCall), w, e)
  else
    match (e.machine w).run fuel with
    | none => none
    | some (h, m) =>
      let (result, e) := e.settled h m
      some (result, m.core.world, e)

def isPaused (e : Executor) : Bool := !e.callStack.isEmpty

/-- The results of a finished call. -/
def results (e : Executor) : List Value :=
  if e.state = .finished then (⟨0⟩ : Window).values e.context.stack else []

/-- The results of a finished call, which are no longer held afterwards. -/
def takeResults (e : Executor) : List Value × Executor :=
  (e.results, if e.state = .finished then { e.cleared with state := .idle } else e)

/-- Serves a request in the window at `base`, outside a drain. The window's values after it
are the results. -/
def serve (fuel : Nat) (w : World) (e : Executor) (activity : Activity) :
    Option (Except Failure Unit × World × Executor) :=
  let m : Machine := { core := ⟨w, e.context⟩, activity }
  match m.run fuel with
  | none => none
  | some (h, m) =>
    let e := { e with context := m.core.context }
    let result :=
      match h with
      | .finished => .ok ()
      | .failed err => .error err
      | .paused _ => .error (.protocol .noPendingCall)
    some (result, m.core.world, e)

end Executor

end CoopScript
