import CoopScript.Executor

/-! Direct calls: a call drained to its end by the caller, who gives up after a number of
pauses. The executor is then still paused, and a later attempt goes on from there. -/

namespace CoopScript

namespace DirectCall

/-- Drains the pending call. `pauses` have been waited through, and `left` more may be. -/
def resumeFrom (fuel : Nat) (pauses : Nat) (left : Nat) (w : World) (e : Executor) :
    Option (Except HostError (List Value) × World × Executor) :=
  match e.drain fuel w with
  | none => none
  | some (.error err, w, e) => some (.error (.call err), w, e)
  | some (.ok .finished, w, e) =>
    let (results, e) := e.takeResults
    some (.ok results, w, e)
  | some (.ok .paused, w, e) =>
    match left with
    | 0 => some (.error (.paused (pauses + 1)), w, e)
    | left + 1 => resumeFrom fuel (pauses + 1) left w e

def resume (fuel : Nat) (maxPauses : Nat) (w : World) (e : Executor) :
    Option (Except HostError (List Value) × World × Executor) :=
  resumeFrom fuel 0 maxPauses w e

def call (fuel : Nat) (maxPauses : Nat) (w : World) (e : Executor) (f : FunctionId)
    (args : List Value) : Option (Except HostError (List Value) × World × Executor) :=
  match e.pushCall f args with
  | (.error err, e) => some (.error (.call err), w, e)
  | (.ok (), e) => resume fuel maxPauses w e

/-- A call on an executor of its own. -/
def onFresh (fuel : Nat) (config : Config) (w : World) (f : FunctionId) (args : List Value) :
    Option (Except HostError (List Value) × World) :=
  match Executor.new config.engine with
  | .error err => some (.error (.call (.stack err)), w)
  | .ok e => (call fuel config.maxPauses w e f args).map fun (result, w, _) => (result, w)

end DirectCall

end CoopScript
