import CoopScript.Executor

/-! A round-robin scheduler. Every task has an executor of its own; a turn is one drain of the
first task, and a task that pauses goes to the end of the queue. -/

namespace CoopScript

inductive TaskState where
  | created
  | suspended (reason : SuspendReason)
  deriving DecidableEq

def TaskState.name : TaskState → String
  | created => "created"
  | suspended reason => reason.name

structure Task where
  id : Nat
  name : String
  executor : Executor
  state : TaskState := .created
  turns : Nat := 0

/-- How a task ended. -/
structure Completion where
  id : Nat
  name : String
  result : Except Failure (List Value)
  turns : Nat

structure Scheduler where
  config : EngineConfig
  queue : List Task := []
  nextId : Nat := 1
  turns : Nat := 0

namespace Scheduler

/-- Queues a call as a new task. A call that cannot be set up uses no id. -/
def spawn (s : Scheduler) (w : World) (f : FunctionId) (args : List Value) :
    Except HostError Nat × Scheduler :=
  match Executor.new s.config with
  | .error err => (.error (.call (.stack err)), s)
  | .ok e =>
    match e.pushCall f args with
    | (.error err, _) => (.error (.call err), s)
    | (.ok (), executor) =>
      let task : Task := { id := s.nextId, name := w.functionName f, executor }
      (.ok s.nextId, { s with queue := s.queue ++ [task], nextId := s.nextId + 1 })

/-- The queued tasks in the order of their turns. -/
def pending (s : Scheduler) : List Nat := s.queue.map (·.id)

/-- The state of a queued task. -/
def state? (s : Scheduler) (id : Nat) : Option TaskState :=
  (s.queue.find? (·.id == id)).map (·.state)

/-- What a turn leaves of a task: its completion, or the task to be queued again. -/
def turnEnd (task : Task) (result : Except Failure Drain) (e : Executor) : Completion ⊕ Task :=
  match result with
  | .ok .paused =>
    .inr { task with executor := e, state := .suspended (e.lastReason.getD .preempted) }
  | .ok .finished => .inl ⟨task.id, task.name, .ok e.results, task.turns⟩
  | .error err => .inl ⟨task.id, task.name, .error err, task.turns⟩

/-- Gives the first task a turn. -/
def step (fuel : Nat) (w : World) (s : Scheduler) :
    Option (Option Completion × World × Scheduler) :=
  match s.queue with
  | [] => some (none, w, s)
  | task :: rest =>
    let task := { task with turns := task.turns + 1 }
    let s := { s with queue := rest, turns := s.turns + 1 }
    match task.executor.drain fuel w with
    | none => none
    | some (result, w, e) =>
      match turnEnd task result e with
      | .inl completion => some (some completion, w, s)
      | .inr task => some (none, w, { s with queue := s.queue ++ [task] })

/-- Gives turns until the queue is empty, at most `turns` of them. -/
def run (fuel : Nat) : Nat → World → Scheduler → Option (List Completion × World × Scheduler)
  | 0, w, s => if s.queue.isEmpty then some ([], w, s) else none
  | turns + 1, w, s =>
    if s.queue.isEmpty then some ([], w, s)
    else
      match s.step fuel w with
      | none => none
      | some (done, w, s) =>
        match run fuel turns w s with
        | none => none
        | some (later, w, s) => some (done.toList ++ later, w, s)

/-- Removes a task from the queue, and tells whether it was there. -/
def cancel (s : Scheduler) (id : Nat) : Bool × Scheduler :=
  (s.queue.any (·.id == id), { s with queue := s.queue.filter (·.id != id) })

end Scheduler

end CoopScript
