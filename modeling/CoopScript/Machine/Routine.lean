import CoopScript.Library.Builtins
import CoopScript.Machine.Script

/-! Functions at work. A function other than a script answers with an action, and only here
does the action touch the register stack: in the function's own window and above it. -/

namespace CoopScript

open CoopScript.Core

/-- Carries out what the function `f` in the window asks for. -/
def Action.perform (f : FunctionId) (w : Window) : Action → CoreM Move
  | .done => return .go .returned
  | .ret results => do
    onStack (w.ret results)
    return .go .returned
  | .suspend reason state => return .suspend reason ⟨f, w, some state⟩
  | .call callee args shift state => do
    onStack (w.setTop 0)
    onStack ((w.shift shift).pushAll args)
    return .call ⟨f, w, some state⟩ (.value callee) (w.shift shift)
  | .forward function receiver state => do
    match receiver with
    | some v => onStack (w.prepend v)
    | none => pure ()
    return .call ⟨f, w, some state⟩ (.function function) w
  | .index object key state => return .call ⟨f, w, some state⟩ (.index object key) w
  | .textOf value state => return .call ⟨f, w, some state⟩ (.text value) w
  | .spend cost state => do
    modifyBudget (Budget.charge · cost)
    if ← tick then return .suspend .preempted ⟨f, w, some state⟩
    else return .go .returned
  | .takeOver shift => do
    onStack (w.returnFrom (w.shift shift))
    return .go .returned

/-- The action of a host function, after its lines have been logged. -/
def Reply.action (r : Reply) : WorldM Action := do
  modify fun w => { w with log := w.log ++ r.log }
  match r.outcome with
  | .ok a => return a
  | .error e => throw e

namespace Callable

/-- Calls the function `f`, whose arguments the window holds. -/
def invoke (c : Callable) (f : FunctionId) (w : Window) : CoreM Move := do
  let held := w.values (← getStack)
  match c with
  | .script p =>
    p.enter w
    return .go (.running f w 0)
  | .builtin b => (← onWorld (b.invoke held)).perform f w
  | .matches cursor =>
    let (captures, cursor) := cursor.advance
    onWorld (modify fun world => world.setCallable f (.matches cursor))
    (Action.ret captures).perform f w
  | .lines file formats => (← onWorld (Files.nextItems file formats)).perform f w
  | .host h => (← onWorld (h.invoke held).action).perform f w

/-- Resumes the function `f` with a state it saved. -/
def resume (c : Callable) (f : FunctionId) (w : Window) (s : Saved) : CoreM Move := do
  let held := w.values (← getStack)
  match c with
  | .script p =>
    match s with
    | .script pc pending =>
      p.resume w pending
      return .go (.running f w pc)
    | _ => throw (.protocol (.stateMismatch p.name))
  | .builtin b => (← onWorld (b.resume s held)).perform f w
  | .matches _ => throw (.protocol (.notSuspendable c.name))
  | .lines _ _ =>
    match s with
    | .reading r => (← onWorld (Files.readItems r.file r.results r.collected r.formats)).perform f w
    | _ => throw (.protocol (.stateMismatch c.name))
  | .host h => (← onWorld (h.resume s held).action).perform f w

end Callable

end CoopScript
