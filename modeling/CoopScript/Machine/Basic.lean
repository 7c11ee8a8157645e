import CoopScript.Machine.Dispatch
import CoopScript.Machine.Routine

/-! The machine that runs calls. Callers wait as frames, exactly as they would be saved, so a
suspension keeps them as they are, and a return goes on with a frame as its resumption does. What
functions do that call each other directly, and attach their frames only when a call comes back with
a suspension, is defined in `CoopScript.Evaluation.Functions`; `Executor.drain_iff_evaluate` says
that a drain comes to the same. -/

namespace CoopScript

structure Machine where
  core : Core
  activity : Activity := .returned
  /-- The frames that wait for the current activity, innermost first. They have been active
  since the last frame was taken from the pending ones. -/
  callers : List Frame := []
  /-- The frames that were suspended earlier, in the order they are resumed. -/
  pending : List Frame := []

/-- How a run comes to rest. -/
inductive Halt where
  | finished
  | paused (reason : SuspendReason)
  | failed (e : Failure)

namespace Activity

open CoopScript.Core

/-- One step of an activity other than the return to a frame. -/
def step : Activity → CoreM Move
  | .returned => return .go .returned
  | .dispatch r w => return .go (← r.serve w)
  | .enter f w => do ((← getWorld).callable f).invoke f w
  | .resume f w s => do ((← getWorld).callable f).resume f w s
  | .running f w pc => do
    match (← getWorld).callable f with
    | .script p => p.step f w pc
    | _ => return .go .returned

end Activity

namespace Frame

/-- The start of a call, or its continuation. -/
def activity (frame : Frame) : Activity :=
  match frame.state with
  | none => .enter frame.function frame.base
  | some s => .resume frame.function frame.base s

def watcher? (frame : Frame) (w : World) : Option Watcher :=
  match w.callable frame.function with
  | .host h => h.watcher
  | _ => none

def describe (frame : Frame) (w : World) : String × Nat :=
  (w.functionName frame.function, frame.base.offset)

end Frame

namespace Machine

def log (m : Machine) (lines : List String) : Machine :=
  { m with core := { m.core with world := { m.core.world with log := m.core.world.log ++ lines } } }

/-- What the watchers among the callers log about a failure, innermost first. -/
def failureLines (m : Machine) (e : Failure) : List String :=
  m.callers.filterMap fun frame =>
    (frame.watcher? m.core.world).map fun watcher => watcher.failed e.message

/-- What the watchers among the callers log about a suspension, each with the frames captured
up to and including its own. -/
def suspensionLines (m : Machine) (reason : SuspendReason) (frame : Frame) : List String :=
  m.callers.zipIdx.filterMap fun (caller, i) =>
    (caller.watcher? m.core.world).map fun watcher =>
      watcher.suspended
        { reason
          draining := m.core.context.draining
          frames := ((frame :: m.callers).take (i + 2)).map fun f => f.describe m.core.world }

def fail (m : Machine) (e : Failure) : Halt × Machine := (.failed e, m.log (m.failureLines e))

/-- Saves the frame and its callers in front of the pending ones. Outside a drain nothing can
be saved. -/
def suspend (m : Machine) (reason : SuspendReason) (frame : Frame) : Halt × Machine :=
  if m.core.context.draining then
    let m := m.log (m.suspensionLines reason frame)
    (.paused reason,
      { m with
        activity := .returned
        callers := []
        pending := frame :: m.callers ++ m.pending })
  else m.fail (.protocol .noPendingCall)

/-- One step: the machine after it, or how the run ends. -/
def step (m : Machine) : Machine ⊕ (Halt × Machine) :=
  match m.activity with
  | .returned =>
    match m.callers, m.pending with
    | frame :: callers, _ => .inl { m with activity := frame.activity, callers }
    | [], [] => .inr (.finished, m)
    | [], frame :: pending =>
      let c := m.core.world.callable frame.function
      if frame.state.isSome && !c.isResumable then
        .inr (m.fail (.protocol (.notSuspendable c.name)))
      else .inl { m with activity := frame.activity, pending }
  | activity =>
    let (result, core) := activity.step.run m.core
    let m := { m with core }
    match result with
    | .ok (.go activity) => .inl { m with activity }
    | .ok (.call frame r w) =>
      .inl { m with activity := .dispatch r w, callers := frame :: m.callers }
    | .ok (.suspend reason frame) => .inr (m.suspend reason frame)
    | .error e => .inr (m.fail e)

/-- Steps until the run comes to rest; nothing if the fuel does not last. -/
def run : Nat → Machine → Option (Halt × Machine)
  | 0, _ => none
  | fuel + 1, m =>
    match m.step with
    | .inl m => run fuel m
    | .inr result => some result

end Machine

end CoopScript
