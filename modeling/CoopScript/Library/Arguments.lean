import CoopScript.Error

/-! Reading the arguments of library functions one after another. -/

namespace CoopScript

/-- The arguments of a call and how many of them have been read. -/
structure Arguments where
  function : String
  values : List Value
  position : Nat := 0
  deriving DecidableEq

/-- A reader of arguments; it stops at the first one that does not fit. -/
abbrev ArgumentsM := StateT Arguments (Except ScriptError)

namespace Arguments

def hasNext (a : Arguments) : Bool := decide (a.position < a.values.length)

/-- An error about the argument at an index, counted from one. -/
def bad (a : Arguments) (index : Nat) (fault : ArgumentFault) : ScriptError :=
  .badArgument index a.function fault

/-- An error about the argument that was read last. -/
def badLast (a : Arguments) (fault : ArgumentFault) : ScriptError := a.bad (max a.position 1) fault

/-- Another kind of value was expected at an index. -/
def unexpected (a : Arguments) (index : Nat) (what : String) : ScriptError :=
  a.bad index (.expected what (a.values[index - 1]?.map Value.kind))

/-- The next argument, or nil if there is none; it counts as read either way. -/
def nextOrNil : ArgumentsM Value := do
  let a ← get
  set { a with position := a.position + 1 }
  return a.values[a.position]?.getD .nil

def nextAny : ArgumentsM Value := do
  let a ← get
  match a.values[a.position]? with
  | some v =>
    set { a with position := a.position + 1 }
    return v
  | none => throw (a.bad (a.position + 1) .valueExpected)

theorem nextAny_of_some {a : Arguments} {v : Value} (found : a.values[a.position]? = some v) :
    nextAny a = .ok (v, { a with position := a.position + 1 }) := by
  unfold nextAny
  simp only [bind, StateT.bind, Except.bind, get, getThe, MonadStateOf.get, StateT.get, pure, Except.pure]
  rw [found]
  rfl

theorem nextAny_of_none {a : Arguments} (missing : a.values[a.position]? = none) :
    nextAny a = .error (a.bad (a.position + 1) .valueExpected) := by
  unfold nextAny
  simp only [bind, StateT.bind, Except.bind, get, getThe, MonadStateOf.get, StateT.get, pure, Except.pure]
  rw [missing]
  rfl

def nextText : ArgumentsM String := do
  let v ← nextOrNil
  let a ← get
  match v.asText? with
  | some s => return s
  | none => throw (a.unexpected a.position "string")

def nextInt : ArgumentsM Int64 := do
  let v ← nextOrNil
  let a ← get
  match v.asInt? with
  | some i => return i
  | none =>
    if v.asFloat?.isSome then throw (a.bad a.position .noInteger)
    else throw (a.unexpected a.position "number")

def nextFloat : ArgumentsM Binary64 := do
  let v ← nextOrNil
  let a ← get
  match v.asFloat? with
  | some x => return x
  | none => throw (a.unexpected a.position "number")

/-- Whether the next argument is missing or nil. -/
def nextAbsent (a : Arguments) : Bool := (a.values[a.position]?.getD .nil).isNil

def optInt (default : Int64) : ArgumentsM Int64 := do
  if (← get).nextAbsent then
    let _ ← nextOrNil
    return default
  else nextInt

def optText : ArgumentsM (Option String) := do
  if (← get).nextAbsent then
    let _ ← nextOrNil
    return none
  else return some (← nextText)

/-- Runs a reader over the arguments of a call of the named function. -/
def reading {α : Type} (function : String) (values : List Value) (reader : ArgumentsM α) :
    Except ScriptError α :=
  return (← reader.run { function, values }).1

end Arguments

end CoopScript
