import CoopScript.Callable

/-! Host functions for embedders: functions that answer at once, functions that suspend a
number of times, and functions that call their first argument. -/

namespace CoopScript

namespace HostFunction

/-- A failure to go on from a state that the function has not saved. -/
def unknownState (name : String) : Reply := { outcome := .error (.protocol (.stateMismatch name)) }

/-- A function that never suspends. -/
def native (name : String) (answer : List Value → Reply) : HostFunction where
  name := name
  isResumable := false
  invoke := answer
  resume := fun _ _ => { outcome := .error (.protocol (.notSuspendable name)) }

/-- Returns its arguments. -/
def identity (name : String) : HostFunction := native name fun _ => { outcome := .ok .done }

def const (name : String) (values : List Value) : HostFunction :=
  native name fun _ => { outcome := .ok (.ret values) }

/-- Raises a text as an error. -/
def fail (name text : String) : HostFunction :=
  native name fun _ => { outcome := .error (.script (.raised text)) }

/-- Logs the texts of its arguments and returns nothing. -/
def mark (name : String) : HostFunction :=
  native name fun args =>
    { log := [" ".intercalate (args.map Value.display)], outcome := .ok (.ret []) }

/-- Suspends unless nothing is left to wait for; the saved count is what is left. -/
def countDown (reason : SuspendReason) (left : Int64) : Reply :=
  { outcome := .ok (if left ≤ 0 then .done else .suspend reason (.count (left - 1))) }

/-- Suspends a number of times, then returns its arguments. -/
def waits (name : String) (reason : SuspendReason) (times : Int64) : HostFunction where
  name := name
  isResumable := true
  invoke := fun _ => countDown reason times
  resume := fun
    | .count left, _ => countDown reason left
    | _, _ => unknownState name

/-- Calls its first argument with the others, `shift` slots further in than its own window. -/
def callFirst (shift : Nat) (args : List Value) : Reply :=
  { outcome := .ok (.call (args.headD .nil) args.tail shift .unit) }

/-- Returns what the call of its first argument returns. -/
def apply (name : String) : HostFunction where
  name := name
  isResumable := true
  invoke := callFirst 0
  resume := fun
    | .unit, _ => { outcome := .ok .done }
    | _, _ => unknownState name

/-- Makes the call further in and takes its results over. -/
def shifted (name : String) (shift : Nat) : HostFunction where
  name := name
  isResumable := true
  invoke := callFirst shift
  resume := fun
    | .unit, _ => { outcome := .ok (.takeOver shift) }
    | _, _ => unknownState name

def frameText (frame : String × Nat) : String := frame.1 ++ "@" ++ natText frame.2

/-- One line for each suspension and each failure of a call. -/
def tracer (name : String) : Watcher where
  suspended := fun report =>
    " ".intercalate
      [name, report.reason.name, natText report.frames.length,
        "draining=" ++ (Value.bool report.draining).display,
        "[" ++ " ".intercalate (report.frames.map frameText) ++ "]"]
  failed := fun message => name ++ " error " ++ message

/-- Makes the call and logs how it suspends or fails. -/
def spy (name : String) : HostFunction := { apply name with watcher := some (tracer name) }

/-- Suspends although it cannot be resumed. -/
def stubborn (name : String) : HostFunction where
  name := name
  isResumable := false
  invoke := fun _ => { outcome := .ok (.suspend .yield .unit) }
  resume := fun
    | .unit, _ => { outcome := .ok .done }
    | _, _ => unknownState name

/-- Suspends with a state that it does not go on from. -/
def mismatch (name : String) : HostFunction where
  name := name
  isResumable := true
  invoke := fun _ => { outcome := .ok (.suspend .blocked (.note name)) }
  resume := fun _ _ => unknownState name

/-- Takes a cost from the budget and returns its arguments. -/
def burn (name : String) (cost : Nat) : HostFunction where
  name := name
  isResumable := true
  invoke := fun _ => { outcome := .ok (.spend cost (.count 0)) }
  resume := fun
    | .count _, _ => { outcome := .ok .done }
    | _, _ => unknownState name

end HostFunction

end CoopScript
