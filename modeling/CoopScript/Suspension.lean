import CoopScript.Library.Formatting
import CoopScript.Library.Substitution
import CoopScript.Stream.Reading
import CoopScript.Window

/-! Suspended work as data. A frame that waits, for a call it made or to be resumed, is the
function, the window it runs in, and a saved state that says how to go on. -/

namespace CoopScript

inductive SuspendReason where
  | preempted
  | yield
  | blocked
  deriving DecidableEq

def SuspendReason.name : SuspendReason → String
  | preempted => "preempted"
  | yield => "yield"
  | blocked => "blocked"

/-- What a script does with the results of the operation it waits for. -/
inductive Pending where
  | call (base nresults : Nat)
  | index (dst : Nat)
  deriving DecidableEq

/-- Data that is being written to a handle. -/
structure Writing where
  file : UserdataId
  data : Bytes
  taken : Nat := 0
  deriving DecidableEq

/-- Items that are being read from a handle: the formats to come, the results so far, and what
the current item has collected. -/
structure ReadingItems where
  file : UserdataId
  formats : List ReadFormat
  results : List Value := []
  collected : Bytes := []
  deriving DecidableEq

inductive Control where
  | seek (target : Seek)
  | buffering (mode : Buffering)
  deriving DecidableEq

/-- The states that functions go on from. Each function knows the kinds it has saved. -/
inductive Saved where
  | unit
  | count (n : Int64)
  | note (text : String)
  | arguments (values : List Value)
  | script (pc : Nat) (pending : Option Pending)
  | substitution (s : Substitution)
  | formatting (s : Formatting)
  | writing (w : Writing)
  | reading (r : ReadingItems)
  | control (file : UserdataId) (c : Control)
  | file (u : UserdataId)

/-- A frame that waits. One without a state has not started. -/
structure Frame where
  function : FunctionId
  base : Window
  state : Option Saved

end CoopScript
