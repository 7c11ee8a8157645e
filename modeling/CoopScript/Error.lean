import CoopScript.Value

/-! What can go wrong, by cause, and the wording of each cause. -/

namespace CoopScript

inductive StackError where
  | invalidCapacity (capacity : Nat)
  | outOfRange (requested capacity : Nat)
  | insufficientSpace (requested available : Nat)
  deriving DecidableEq

def StackError.message : StackError → String
  | invalidCapacity capacity => "Invalid register stack capacity: " ++ natText capacity
  | outOfRange requested capacity =>
    "Register stack top " ++ natText requested ++ " out of range (capacity=" ++
      natText capacity ++ ")"
  | insufficientSpace requested available =>
    "Not enough space in register stack: pushing " ++ natText requested ++ " values, " ++
      natText available ++ " slots free"

/-- Misuse of suspension by an embedder or by a function. -/
inductive ProtocolError where
  | alreadyPaused
  | notSuspendable (function : String)
  | noPendingCall
  | stateMismatch (function : String)
  deriving DecidableEq

def ProtocolError.message : ProtocolError → String
  | alreadyPaused => "Pushing a call in paused state"
  | notSuspendable f => "Function '" ++ f ++ "' is not suspendable"
  | noPendingCall => "No pending call to resume"
  | stateMismatch f => "Saved state does not belong to function '" ++ f ++ "'"

/-- What is wrong with an argument of a library function. -/
inductive ArgumentFault where
  /-- Another kind of value was expected; no kind stands for a missing argument. -/
  | expected (what : String) (got : Option Kind)
  | valueExpected
  | noInteger
  | outOfRange
  | noReplacement
  | missing
  | noLiteral
  | fileExpected
  | invalidFormat
  | offsetOutOfRange
  | invalidOption (text : String)
  | invalidBufferSize
  | invalidMode
  deriving DecidableEq

def ArgumentFault.message : ArgumentFault → String
  | expected what got =>
    what ++ " expected, got " ++ (match got with | some kind => kind.name | none => "no value")
  | valueExpected => "value expected"
  | noInteger => "number has no integer representation"
  | outOfRange => "value out of range"
  | noReplacement => "string/function/table expected"
  | missing => "no value"
  | noLiteral => "value has no literal form"
  | fileExpected => "FILE* expected"
  | invalidFormat => "invalid format"
  | offsetOutOfRange => "offset out of range"
  | invalidOption text => "invalid option '" ++ text ++ "'"
  | invalidBufferSize => "invalid buffer size"
  | invalidMode => "invalid mode"

/-- Errors that running code raises. -/
inductive ScriptError where
  | badArgument (index : Nat) (function : String) (fault : ArgumentFault)
  | arithmetic (kind : Kind)
  | moduloByZero
  | compareTwo (kind : Kind)
  | compareMixed (left right : Kind)
  | concatenate (kind : Kind)
  | notCallable (kind : Kind)
  | notIndexable (kind : Kind)
  | indexChain
  | nilKey
  | nanKey
  | unsupportedKey (kind : Kind)
  | malformedPattern
  | invalidReplacement (kind : Kind)
  | stringTooLarge
  | repeatedFlags
  | fieldTooLong
  | invalidDirective (conversion : Option Char)
  | tostringResult
  | closedFile
  | alreadyClosed
  /-- A text raised by a script, a host function or a device. -/
  | raised (text : String)
  deriving DecidableEq

def ScriptError.message : ScriptError → String
  | badArgument index f fault =>
    "bad argument #" ++ natText index ++ " to '" ++ f ++ "' (" ++ fault.message ++ ")"
  | arithmetic kind => "attempt to perform arithmetic on a " ++ kind.name ++ " value"
  | moduloByZero => "attempt to perform 'n%0'"
  | compareTwo kind => "attempt to compare two " ++ kind.name ++ " values"
  | compareMixed left right => "attempt to compare " ++ left.name ++ " with " ++ right.name
  | concatenate kind => "attempt to concatenate a " ++ kind.name ++ " value"
  | notCallable kind => "attempt to call a " ++ kind.name ++ " value"
  | notIndexable kind => "attempt to index a " ++ kind.name ++ " value"
  | indexChain => "'__index' chain too long; possible loop"
  | nilKey => "table index is nil"
  | nanKey => "table index is NaN"
  | unsupportedKey kind => "unsupported table key (a " ++ kind.name ++ " value)"
  | malformedPattern => "malformed pattern"
  | invalidReplacement kind => "invalid replacement value (a " ++ kind.name ++ ")"
  | stringTooLarge => "resulting string too large"
  | repeatedFlags => "illegal format (repeated flags)"
  | fieldTooLong => "illegal format (width or precision too long)"
  | invalidDirective conversion =>
    "invalid option '%" ++ (match conversion with | some c => c.toString | none => "") ++
      "' to 'format'"
  | tostringResult => "'__tostring' must return a string"
  | closedFile => "attempt to use a closed file"
  | alreadyClosed => "file is already closed"
  | raised text => text

/-- Why a call ends without results. -/
inductive Failure where
  | stack (e : StackError)
  | protocol (e : ProtocolError)
  | script (e : ScriptError)
  deriving DecidableEq

def Failure.message : Failure → String
  | stack e => e.message
  | protocol e => e.message
  | script e => e.message

end CoopScript
