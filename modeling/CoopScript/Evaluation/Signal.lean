import CoopScript.Suspension

/-! Suspension as something a call comes back with. A signal is raised without knowing who is
waiting; every function it passes through on the way out has to attach the frame that it will go
on from, so a chain of calls leaves one frame for each of them, innermost first. -/

namespace CoopScript

/-- A signal as the place of a call sees it: the caller has not attached its frame yet. -/
structure Unresolved where
  reason : SuspendReason
  frames : List Frame := []

/-- A signal as a function returns it, with its own frame attached last. -/
structure Resolved where
  reason : SuspendReason
  frames : List Frame

/-- What the place of a call gets instead of results. -/
inductive Raise where
  | suspend (signal : Unresolved)
  | error (e : Failure)

/-- What a function returns instead of results. -/
inductive Unwind where
  | suspend (signal : Resolved)
  | error (e : Failure)

def Unresolved.resolve (signal : Unresolved) (frame : Frame) : Resolved :=
  { reason := signal.reason, frames := signal.frames ++ [frame] }

/-- Hands the signal to the next call site out. -/
def Resolved.unresolve (signal : Resolved) : Unresolved := { reason := signal.reason, frames := signal.frames }

/-- A suspension takes the frame of the caller along; errors pass through. -/
def Raise.resolve : Raise → Frame → Unwind
  | suspend signal, frame => .suspend (signal.resolve frame)
  | error e, _ => .error e

def Unwind.raise : Unwind → Raise
  | suspend signal => .suspend signal.unresolve
  | error e => .error e

/-- Failures become either of the two. -/
class OfFailure (ε : Type) where
  failed : Failure → ε

instance : OfFailure Raise := ⟨.error⟩

instance : OfFailure Unwind := ⟨.error⟩

/-- The frames of a paused execution; the last one is resumed first. -/
structure CallStack where
  frames : Array Frame := #[]

namespace CallStack

/-- The frame to be resumed next, and the stack without it. -/
def pop? (s : CallStack) : Option (Frame × CallStack) :=
  s.frames.back?.map fun frame => (frame, { frames := s.frames.pop })

/-- Puts a captured chain on top, the innermost frame uppermost. -/
def splice (s : CallStack) (chain : List Frame) : CallStack := { frames := s.frames ++ chain.reverse }

/-- The frames in the order they are resumed. -/
def resumption (s : CallStack) : List Frame := s.frames.toList.reverse

/-- The stack that resumes the frames in the order given. -/
def ofResumption (frames : List Frame) : CallStack := { frames := frames.reverse.toArray }

@[simp] theorem resumption_ofResumption (frames : List Frame) : (ofResumption frames).resumption = frames := by
  simp [resumption, ofResumption]

/-- The chain goes in front of all that waits already. -/
@[simp] theorem resumption_splice (s : CallStack) (chain : List Frame) :
    (s.splice chain).resumption = chain ++ s.resumption := by
  simp [resumption, splice]

theorem pop?_eq_none {s : CallStack} : s.pop? = none ↔ s.resumption = [] := by
  simp [pop?, resumption]

theorem resumption_of_pop? {s rest : CallStack} {frame : Frame} (popped : s.pop? = some (frame, rest)) :
    s.resumption = frame :: rest.resumption := by
  obtain ⟨last, found, same⟩ := Option.map_eq_some_iff.mp popped
  cases same
  obtain ⟨front, split⟩ := Array.back?_eq_some_iff.mp found
  simp [resumption, split]

end CallStack

end CoopScript
