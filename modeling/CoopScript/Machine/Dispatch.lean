import CoopScript.Machine.Core

/-! Calls of values, lookups and texts, with the handlers that metatables supply. -/

namespace CoopScript

/-- The longest chain of `__index` values that a lookup follows. -/
def indexChainLimit : Nat := 100

/-- What a lookup comes to. -/
inductive Lookup where
  | found (v : Value)
  /-- A handler is to be called for the object it was found on. -/
  | handler (f : FunctionId) (object : Value)

namespace World

/-- Follows `__index` from an object, through at most `links` objects. -/
def lookup (w : World) (key : Value) : Nat → Value → Except ScriptError Lookup
  | 0, _ => .error .indexChain
  | links + 1, object =>
    let raw :=
      match object with
      | .table t => (w.table t).get key
      | _ => .nil
    if !raw.isNil then .ok (.found raw)
    else
      match w.metamethod? object "__index" with
      | none =>
        match object with
        | .table _ => .ok (.found .nil)
        | _ => .error (.notIndexable object.kind)
      | some (.function f) => .ok (.handler f object)
      | some next => lookup w key links next

end World

namespace Request

open CoopScript.Core

/-- Begins to serve a request in a window. A lookup or a text without a handler is served at
once. -/
def serve (r : Request) (w : Window) : CoreM Activity := do
  let world ← getWorld
  match r with
  | .function f => return .enter f w
  | .value (.function f) => return .enter f w
  | .value callee =>
    match world.metamethod? callee "__call" with
    | some (.function handler) =>
      onStack (w.prepend callee)
      return .enter handler w
    | _ => throw (.script (.notCallable callee.kind))
  | .index object key =>
    match world.lookup key indexChainLimit object with
    | .ok (.found v) =>
      onStack (w.ret [v])
      return .returned
    | .ok (.handler f object) =>
      onStack (w.ret [object, key])
      return .enter f w
    | .error e => throw (.script e)
  | .text v =>
    match world.metamethod? v "__tostring" with
    | some handler =>
      onStack (w.ret [v])
      return .dispatch (.value handler) w
    | none =>
      onStack (w.ret [.str (world.defaultText v)])
      return .returned

end Request

end CoopScript
