import CoopScript.Script.Proto
import CoopScript.Suspension
import CoopScript.Window

/-! What can be called. Script functions run instruction by instruction; every other function
sees the values of its window and answers with an action. -/

namespace CoopScript

/-- What a function other than a script asks for next. -/
inductive Action where
  /-- The call is over, and its results are what the window holds. -/
  | done
  | ret (results : List Value)
  | suspend (reason : SuspendReason) (state : Saved)
  /-- Calls a value with arguments in the window `shift` slots further in. -/
  | call (callee : Value) (args : List Value) (shift : Nat) (state : Saved)
  /-- Calls a function in the same window, with a receiver put in front if one is given. -/
  | forward (function : FunctionId) (receiver : Option Value) (state : Saved)
  /-- Looks a key up, which may call a handler. -/
  | index (object key : Value) (state : Saved)
  /-- Asks for the text of a value, which may call a handler. -/
  | textOf (value : Value) (state : Saved)
  /-- Takes a cost from the budget, and suspends if it is spent. -/
  | spend (cost : Nat) (state : Saved)
  /-- Takes over the results of a call made `shift` slots further in. -/
  | takeOver (shift : Nat)

/-- An answer of a host function: lines for the log, and an action or a failure. -/
structure Reply where
  log : List String := []
  outcome : Except Failure Action

/-- What a watcher sees of a suspension: the frames captured so far, innermost first, by name
and offset. -/
structure SuspendReport where
  reason : SuspendReason
  draining : Bool
  frames : List (String × Nat)

/-- Lines that a host function logs when a call it made suspends or fails. -/
structure Watcher where
  suspended : SuspendReport → String
  failed : String → String

/-- A function that the embedding program supplies. -/
structure HostFunction where
  name : String
  isResumable : Bool
  invoke : List Value → Reply
  resume : Saved → List Value → Reply
  watcher : Option Watcher := none

/-- The functions of the library. -/
inductive Builtin where
  | pause
  | tostring
  | typeName
  | error
  | format
  | gsub
  | byte
  | char
  | find
  | gmatch
  | len
  | lower
  | firstMatch
  | rep
  | reverse
  | sub
  | upper
  | fileWrite
  | fileRead
  | fileFlush
  | fileClose
  | fileLines
  | fileSeek
  | fileSetvbuf
  | fileTostring
  | ioWrite
  | ioRead
  | ioFlush
  | ioClose
  | ioOpen
  | ioInput
  | ioOutput
  | ioType
  deriving DecidableEq

namespace Builtin

def name : Builtin → String
  | pause => "pause"
  | tostring | fileTostring => "tostring"
  | typeName | ioType => "type"
  | error => "error"
  | format => "format"
  | gsub => "gsub"
  | byte => "byte"
  | char => "char"
  | find => "find"
  | gmatch => "gmatch"
  | len => "len"
  | lower => "lower"
  | firstMatch => "match"
  | rep => "rep"
  | reverse => "reverse"
  | sub => "sub"
  | upper => "upper"
  | fileWrite | ioWrite => "write"
  | fileRead | ioRead => "read"
  | fileFlush | ioFlush => "flush"
  | fileClose | ioClose => "close"
  | fileLines => "lines"
  | fileSeek => "seek"
  | fileSetvbuf => "setvbuf"
  | ioOpen => "open"
  | ioInput => "input"
  | ioOutput => "output"

/-- The functions that can suspend, by themselves or in a call they make. -/
def isResumable : Builtin → Bool
  | pause | tostring | format | gsub | fileWrite | fileRead | fileFlush | fileClose
  | fileSeek | fileSetvbuf | ioWrite | ioRead | ioFlush | ioClose => true
  | _ => false

end Builtin

inductive Callable where
  | script (proto : Proto)
  | builtin (b : Builtin)
  /-- An iteration over the matches in a string; each call moves it on. -/
  | matches (cursor : Pattern.Cursor)
  /-- An iteration over the items of a handle. -/
  | lines (file : UserdataId) (formats : List ReadFormat)
  | host (h : HostFunction)

namespace Callable

def name : Callable → String
  | script proto => proto.name
  | builtin b => b.name
  | .matches _ => "gmatch_iterator"
  | lines _ _ => "lines_iterator"
  | host h => h.name

def isResumable : Callable → Bool
  | script _ => true
  | builtin b => b.isResumable
  | .matches _ => false
  | lines _ _ => true
  | host h => h.isResumable

end Callable

/-- A reference to no function stands for one that only raises an error. -/
instance : Inhabited Callable := ⟨.builtin .error⟩

end CoopScript
