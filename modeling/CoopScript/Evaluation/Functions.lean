import CoopScript.Evaluation.Signal
import CoopScript.Executor

/-! Functions as they call each other directly. A call is made where it is needed, in the middle of
a loop, and what stands after it is done when the call has come back with results; a call that
comes back with a suspension instead leaves the loop, with a frame from which the function can be
resumed. -/

namespace CoopScript

/-- Evaluation: the core it leaves, with a result or with what it ends in instead. There is nothing
if the fuel does not last. -/
abbrev EvalM (ε : Type) := ExceptT ε (StateT Core Option)

def Core.logged (c : Core) (lines : List String) : Core :=
  { c with world := { c.world with log := c.world.log ++ lines } }

namespace Evaluation

open CoopScript.Core

def outOfFuel {ε α : Type} : EvalM ε α := fun _ => none

/-- A step that calls nothing. -/
def own {ε α : Type} [OfFailure ε] (op : CoreM α) : EvalM ε α := fun c =>
  match op c with
  | (.ok a, c) => some (.ok a, c)
  | (.error e, c) => some (.error (OfFailure.failed e), c)

/-- Raises a suspension. Outside a drain there is nothing that could hold the frames. -/
def raised (reason : SuspendReason) (c : Core) : Raise :=
  if c.context.draining then .suspend { reason } else .error (.protocol .noPendingCall)

/-- Suspends the function of the frame. -/
def suspend (reason : SuspendReason) (frame : Frame) : EvalM Unwind Unit := fun c =>
  some (.error ((raised reason c).resolve frame), c)

/-- What the watcher of a frame logs of a call that ends in this way. -/
def report (frame : Frame) (c : Core) (u : Unwind) : List String :=
  (frame.watcher? c.world).toList.map fun watcher =>
    match u with
    | .suspend signal =>
      watcher.suspended
        { reason := signal.reason
          draining := c.context.draining
          frames := signal.frames.map fun f => f.describe c.world }
    | .error e => watcher.failed e.message

/-- The caller's part in a call that did not come back with results: it attaches its frame, and a
watcher logs what it sees. -/
def attach (frame : Frame) (raise : Raise) (c : Core) : Unwind × Core :=
  let u := raise.resolve frame
  (u, c.logged (report frame c u))

/-- Makes a call that the function of the frame waits for. -/
def awaiting (frame : Frame) (call : EvalM Raise Unit) : EvalM Unwind Unit := fun c =>
  match call c with
  | none => none
  | some (.ok (), c) => some (.ok (), c)
  | some (.error raise, c) =>
    let (u, c) := attach frame raise c
    some (.error u, c)

/-- What a function ends in as its caller gets it. -/
def handed (function : EvalM Unwind Unit) : EvalM Raise Unit := fun c =>
  (function c).map fun (result, c) => (result.mapError Unwind.raise, c)

section Dispatch

variable (call : FunctionId → Window → EvalM Unwind Unit)

/-- Calls a function with the arguments in the window. -/
def function (f : FunctionId) (w : Window) : EvalM Raise Unit := handed (call f w)

/-- Calls a value that is no function through its handler, if it has one. -/
def callThrough (callee : Value) (w : Window) : Option Value → EvalM Raise Unit
  | some (.function handler) => do
    own (onStack (w.prepend callee))
    function call handler w
  | _ => throw (.error (.script (.notCallable callee.kind)))

/-- Calls any value. -/
def value (callee : Value) (w : Window) : EvalM Raise Unit :=
  match callee with
  | .function f => function call f w
  | callee => do callThrough call callee w ((← own getWorld).metamethod? callee "__call")

/-- Looks a key up. The value is left in the window. -/
def index (object key : Value) (w : Window) : EvalM Raise Unit := do
  match (← own getWorld).lookup key indexChainLimit object with
  | .ok (.found v) => own (onStack (w.ret [v]))
  | .ok (.handler f object) => do
    own (onStack (w.ret [object, key]))
    function call f w
  | .error e => throw (.error (.script e))

/-- Asks for the text of a value. Whatever a `__tostring` handler returns is left in the window. -/
def text (v : Value) (w : Window) : EvalM Raise Unit := do
  let world ← own getWorld
  match world.metamethod? v "__tostring" with
  | some handler => do
    own (onStack (w.ret [v]))
    value call handler w
  | none => own (onStack (w.ret [.str (world.defaultText v)]))

def request (r : Request) (w : Window) : EvalM Raise Unit :=
  match r with
  | .function f => function call f w
  | .value callee => value call callee w
  | .index object key => index call object key w
  | .text v => text call v w

end Dispatch

/-- The substitution with the replacement that the window holds. -/
def replaced (s : Substitution) (w : Window) : CoreM Substitution := do
  Proto.raised (s.collect (w.arg (← getStack) 0))

/-- The formatting with the text that the window holds. -/
def written (s : Formatting) (w : Window) : CoreM Formatting := do
  Proto.raised (s.collect (w.arg (← getStack) 0))

/-- What the window holds has to be a text, which is the result. -/
def textResult (w : Window) : CoreM Unit := do
  match (w.arg (← getStack) 0).asText? with
  | some s => onStack (w.ret [.str s])
  | none => throw (.script .tostringResult)

section Functions

variable (call : FunctionId → Window → EvalM Unwind Unit) (f : FunctionId) (w : Window)

/-- The loop of a script, from the instruction at `pc` on. -/
def script (p : Proto) : Nat → Nat → EvalM Unwind Unit
  | 0, _ => outOfFuel
  | fuel + 1, pc => do
    let frame (pending : Option Pending) : Frame := ⟨f, w, some (.script (pc + 1) pending)⟩
    match p.code[pc]? with
    | some (.getField dst table key) => do
      let object := w.get (← own getStack) table
      awaiting (frame (some (.index dst))) (index call object (p.constant key) (p.scratch w))
      own (p.finish w (.index dst))
      script p fuel (pc + 1)
    | some (.call base nargs nresults) => do
      let callee := w.get (← own getStack) base
      own (onStack ((w.shift (base + 1)).setTop nargs))
      awaiting (frame (some (.call base nresults))) (value call callee (w.shift (base + 1)))
      own (p.finish w (.call base nresults))
      script p fuel (pc + 1)
    | some .tick => do
      if ← own tick then suspend .preempted (frame none)
      else script p fuel (pc + 1)
    | _ => do
      -- No other instruction calls anything.
      match ← own (p.step f w pc) with
      | .go (.running _ _ next) => script p fuel next
      | _ => return ()

/-- The loop of a substitution; a table or a function is asked for each replacement. -/
def substitute : Nat → Substitution → EvalM Unwind Unit
  | 0, _ => outOfFuel
  | fuel + 1, s => do
    match s.advance with
    | .finished results => own (onStack (w.ret results))
    | .lookup table key s => do
      awaiting ⟨f, w, some (.substitution s)⟩ (index call (.table table) key w)
      substitute fuel (← own (replaced s w))
    | .call function captures s => do
      own (onStack (w.ret captures))
      awaiting ⟨f, w, some (.substitution s)⟩ (value call (.function function) w)
      substitute fuel (← own (replaced s w))

/-- The loop of a formatting; texts of values are asked for where they are needed. -/
def format : Nat → Formatting → EvalM Unwind Unit
  | 0, _ => outOfFuel
  | fuel + 1, s => do
    match ← own (Proto.raised s.advance) with
    | .finished text => own (onStack (w.ret [.str text]))
    | .textOf v s => do
      awaiting ⟨f, w, some (.formatting s)⟩ (text call v w)
      format fuel (← own (written s w))

/-- The text of a value as the result of a call. -/
def tostring (v : Value) : EvalM Unwind Unit := do
  awaiting ⟨f, w, some .unit⟩ (text call v w)
  own (textResult w)

/-- The rest of a function that has made its only call, or none: what a call leaves in the window
are the results. -/
def last : Move → EvalM Unwind Unit
  | .call frame r inner => awaiting frame (request call r inner)
  | .suspend reason frame => suspend reason frame
  | .go _ => return ()

/-- The loop of a host function, which is known by its replies: once a call has come back, it
replies to the state it has kept. -/
def host (h : HostFunction) : Nat → Reply → EvalM Unwind Unit
  | 0, _ => outOfFuel
  | fuel + 1, reply => do
    match ← own (do (← onWorld reply.action).perform f w) with
    | .call frame r inner => do
      awaiting frame (request call r inner)
      match frame.state with
      | some state => host h fuel (h.resume state (w.values (← own getStack)))
      | none => return ()
    | .suspend reason frame => suspend reason frame
    | .go _ => return ()

/-- Calls a function from its start. -/
def begun (fuel : Nat) (c : Callable) : EvalM Unwind Unit := do
  let held := w.values (← own getStack)
  match c with
  | .script p => do
    own (p.enter w)
    script call f w p fuel 0
  | .builtin .gsub => do substitute call f w fuel (← own (Proto.raised (Substitution.start held)))
  | .builtin .format => do format call f w fuel (← own (Proto.raised (Formatting.start held)))
  | .builtin .tostring => do
    let v ← own (Proto.raised (Arguments.reading "tostring" held Arguments.nextAny))
    tostring call f w v
  | .host h => host call f w h fuel (h.invoke held)
  | c => do last call (← own (c.invoke f w))

/-- Goes on with a function that was suspended. -/
def resumed (fuel : Nat) (c : Callable) (s : Saved) : EvalM Unwind Unit := do
  match c, s with
  | .script p, .script pc pending => do
    own (p.resume w pending)
    script call f w p fuel pc
  | .builtin .gsub, .substitution s => do substitute call f w fuel (← own (replaced s w))
  | .builtin .format, .formatting s => do format call f w fuel (← own (written s w))
  | .builtin .tostring, .unit => own (textResult w)
  | .host h, s => do host call f w h fuel (h.resume s (w.values (← own getStack)))
  | c, s => do last call (← own (c.resume f w s))

end Functions

/-- Calls the function that an id stands for. -/
def enter : Nat → FunctionId → Window → EvalM Unwind Unit
  | 0, _, _ => outOfFuel
  | fuel + 1, f, w => do begun (enter fuel) f w (fuel + 1) ((← own getWorld).callable f)

/-- Goes on with a pending frame, which its function has to be able to do. -/
def continued (fuel : Nat) (frame : Frame) : EvalM Unwind Unit := do
  let c := (← own getWorld).callable frame.function
  match frame.state with
  | none => enter fuel frame.function frame.base
  | some s =>
    if c.isResumable then resumed (enter fuel) frame.function frame.base fuel c s
    else throw (.error (.protocol (.notSuspendable c.name)))

/-- Continues the pending frames one after another. A suspension puts the frames it comes back with
on top of those that are still waiting. -/
def work : Nat → CallStack → Core → Option (Halt × Core × CallStack)
  | 0, _, _ => none
  | fuel + 1, stack, c =>
    match stack.pop? with
    | none => some (.finished, c, stack)
    | some (frame, rest) =>
      match continued fuel frame c with
      | none => none
      | some (.ok (), c) => work fuel rest c
      | some (.error (.suspend signal), c) => some (.paused signal.reason, c, rest.splice signal.frames)
      | some (.error (.error e), c) => some (.failed e, c, rest)

end Evaluation

namespace Executor

/-- The drain of an executor whose functions call each other directly. -/
def evaluate (fuel : Nat) (w : World) (e : Executor) : Option (Except Failure Drain × World × Executor) :=
  if e.callStack.isEmpty then some (.error (.protocol .noPendingCall), w, e)
  else
    match Evaluation.work fuel (.ofResumption e.callStack) (e.machine w).core with
    | none => none
    | some (h, c, stack) =>
      let (result, e) := e.settled h { core := c, pending := stack.resumption }
      some (result, c.world, e)

end Executor

end CoopScript
