import CoopScript.Scheduler
import Mathlib

/-! What happens to the tasks of a scheduler over a whole history of calls on it, told as a list
of events. Every call is a course of moves, each with one event, and what is true of a scheduler
at each moment follows from what one move does to the queue: the books balance, and the queue goes
round. -/

namespace CoopScript

namespace Scheduler

/-- What befalls a task. -/
inductive Event where
  | spawned (id : Nat)
  /-- A turn after which the task is queued again. -/
  | paused (id : Nat)
  /-- A turn that was the task's last one. -/
  | ended (completion : Completion)
  | cancelled (id : Nat)

namespace Event

@[simp]
def spawned? : Event → Option Nat
  | spawned id => some id
  | paused _ | ended _ | cancelled _ => none

/-- The task that had a turn. -/
@[simp]
def turn? : Event → Option Nat
  | paused id => some id
  | ended completion => some completion.id
  | spawned _ | cancelled _ => none

@[simp]
def completion? : Event → Option Completion
  | ended completion => some completion
  | spawned _ | paused _ | cancelled _ => none

@[simp]
def cancelled? : Event → Option Nat
  | cancelled id => some id
  | spawned _ | paused _ | ended _ => none

end Event

def spawned (trace : List Event) : List Nat := trace.filterMap Event.spawned?

def completions (trace : List Event) : List Completion := trace.filterMap Event.completion?

def cancelled (trace : List Event) : List Nat := trace.filterMap Event.cancelled?

/-- The tasks in the order of their turns. -/
def turned (trace : List Event) : List Nat := trace.filterMap Event.turn?

def turnsOf (id : Nat) (trace : List Event) : Nat := (turned trace).count id

section
variable (trace more : List Event) (event : Event)

@[simp]
theorem spawned_append : spawned (trace ++ more) = spawned trace ++ spawned more := List.filterMap_append

@[simp]
theorem completions_append : completions (trace ++ more) = completions trace ++ completions more :=
  List.filterMap_append

@[simp]
theorem cancelled_append : cancelled (trace ++ more) = cancelled trace ++ cancelled more := List.filterMap_append

@[simp]
theorem turned_append : turned (trace ++ more) = turned trace ++ turned more := List.filterMap_append

@[simp]
theorem turnsOf_append (id : Nat) : turnsOf id (trace ++ more) = turnsOf id trace + turnsOf id more := by
  simp only [turnsOf, turned_append, List.count_append]

@[simp]
theorem spawned_singleton : spawned [event] = event.spawned?.toList := by
  cases event <;> rfl

@[simp]
theorem completions_singleton : completions [event] = event.completion?.toList := by
  cases event <;> rfl

@[simp]
theorem cancelled_singleton : cancelled [event] = event.cancelled?.toList := by
  cases event <;> rfl

@[simp]
theorem turned_singleton : turned [event] = event.turn?.toList := by
  cases event <;> rfl

@[simp]
theorem turnsOf_singleton (id : Nat) : turnsOf id [event] = event.turn?.toList.count id := by
  rw [turnsOf, turned_singleton]

end

/-- The event of a step, which told what it completed. Without a task there is none. -/
def turnEvents (s : Scheduler) (done : Option Completion) : List Event :=
  match s.queue, done with
  | [], _ => []
  | _ :: _, some completion => [.ended completion]
  | task :: _, none => [.paused task.id]

/-- The events of a run, turn after turn. -/
def runEvents (fuel : Nat) : Nat → World → Scheduler → List Event
  | 0, _, _ => []
  | turns + 1, w, s =>
    if s.queue.isEmpty then []
    else
      match s.step fuel w with
      | none => []
      | some (done, w, t) => s.turnEvents done ++ runEvents fuel turns w t

/-- A call on a scheduler that came back: its events, the completions it reports and the scheduler
afterwards. The world is whatever it is at the time of the call. -/
inductive Operation (s : Scheduler) : List Event → List Completion → Scheduler → Prop where
  | spawn {w : World} {f : FunctionId} {args : List Value} {id : Nat} {t : Scheduler}
      (spawned : s.spawn w f args = (.ok id, t)) : Operation s [.spawned id] [] t
  | refused {w : World} {f : FunctionId} {args : List Value} {err : HostError} {t : Scheduler}
      (refused : s.spawn w f args = (.error err, t)) : Operation s [] [] t
  | step {fuel : Nat} {w w' : World} {done : Option Completion} {t : Scheduler}
      (ran : s.step fuel w = some (done, w', t)) : Operation s (s.turnEvents done) done.toList t
  | run {fuel turns : Nat} {w w' : World} {done : List Completion} {t : Scheduler}
      (ran : s.run fuel turns w = some (done, w', t)) : Operation s (runEvents fuel turns w s) done t
  | cancel {id : Nat} {t : Scheduler} (found : s.cancel id = (true, t)) : Operation s [.cancelled id] [] t
  | missed {id : Nat} {t : Scheduler} (missed : s.cancel id = (false, t)) : Operation s [] [] t

/-- Any sequence of calls on a scheduler. -/
inductive History (start : Scheduler) : List Event → List Completion → Scheduler → Prop where
  | start : History start [] [] start
  | snoc {trace events : List Event} {reports done : List Completion} {s t : Scheduler}
      (past : History start trace reports s) (call : Operation s events done t) :
      History start (trace ++ events) (reports ++ done) t

variable {s t u : Scheduler} {trace events before after : List Event} {reports done : List Completion}

/-! ### The moments of a history -/

theorem Operation.history (call : Operation s events done t) : History s events done t := by
  simpa only [List.nil_append] using History.start.snoc call

theorem History.trans (first : History s trace reports t) {more : List Event} {told : List Completion}
    (second : History t more told u) : History s (trace ++ more) (reports ++ told) u := by
  induction second with
  | start => simpa only [List.append_nil] using first
  | snoc _ call ih => simpa only [List.append_assoc] using ih.snoc call

/-- A history of these events passes through a moment between the two parts of them. -/
def Splits (s : Scheduler) (before after : List Event) (reports : List Completion) (u : Scheduler) : Prop :=
  ∃ t told more, reports = told ++ more ∧ History s before told t ∧ History t after more u

/-- A call with one event at most has no moment within it. -/
theorem Operation.splits_of_short (call : Operation s (before ++ after) done t)
    (short : (before ++ after).length ≤ 1) : Splits s before after done t := by
  cases before with
  | nil => exact ⟨s, [], done, rfl, .start, call.history⟩
  | cons first rest =>
    have none : rest = [] ∧ after = [] := by
      simp only [List.cons_append, List.length_cons, List.length_append] at short
      exact ⟨List.eq_nil_of_length_eq_zero (by omega), List.eq_nil_of_length_eq_zero (by omega)⟩
    obtain ⟨rfl, rfl⟩ := none
    exact ⟨t, done, [], (List.append_nil _).symm, call.history, .start⟩

theorem length_turnEvents_le (s : Scheduler) (done : Option Completion) : (s.turnEvents done).length ≤ 1 := by
  unfold turnEvents
  split
  · exact Nat.zero_le 1
  · exact Nat.le_refl 1
  · exact Nat.le_refl 1

theorem step_of_idle {fuel : Nat} {w w' : World} {done : Option Completion} (idle : s.queue = [])
    (ran : s.step fuel w = some (done, w', t)) : done = none ∧ w' = w ∧ t = s := by
  simp only [step, idle, Option.some.injEq, Prod.mk.injEq] at ran
  exact ⟨ran.1.symm, ran.2.1.symm, ran.2.2.symm⟩

/-- A run is over at once, or it is a step and another run. -/
theorem run_cases {fuel turns : Nat} {w w' : World} (ran : s.run fuel turns w = some (done, w', t)) :
    (s.queue = [] ∧ runEvents fuel turns w s = [] ∧ done = [] ∧ t = s) ∨
      ∃ fewer first v m later, turns = fewer + 1 ∧ s.step fuel w = some (first, v, m) ∧
        m.run fuel fewer v = some (later, w', t) ∧ done = first.toList ++ later ∧
        runEvents fuel turns w s = s.turnEvents first ++ runEvents fuel fewer v m := by
  cases turns with
  | zero =>
    simp only [run] at ran
    split at ran
    next idle =>
      simp only [Option.some.injEq, Prod.mk.injEq] at ran
      exact .inl ⟨List.isEmpty_iff.mp idle, rfl, ran.1.symm, ran.2.2.symm⟩
    next => cases ran
  | succ fewer =>
    simp only [run] at ran
    split at ran
    next idle =>
      simp only [Option.some.injEq, Prod.mk.injEq] at ran
      exact .inl ⟨List.isEmpty_iff.mp idle, by simp only [runEvents, idle, if_true], ran.1.symm, ran.2.2.symm⟩
    next busy =>
      split at ran
      next => cases ran
      next first v m stepped =>
        split at ran
        next => cases ran
        next later _ _ rest =>
          simp only [Option.some.injEq, Prod.mk.injEq] at ran
          obtain ⟨rfl, rfl, rfl⟩ := ran
          exact .inr ⟨fewer, first, v, m, later, rfl, stepped, rest, rfl, by
            simp only [runEvents, busy, Bool.false_eq_true, if_false, stepped]⟩

/-- A run is a history of steps. -/
theorem run_splits {fuel turns : Nat} {w w' : World} (ran : s.run fuel turns w = some (done, w', t))
    (parts : runEvents fuel turns w s = before ++ after) : Splits s before after done t := by
  induction turns generalizing s w done before after with
  | zero =>
    obtain ⟨-, none, rfl, rfl⟩ | ⟨fewer, _, _, _, _, more, -⟩ := run_cases ran
    · obtain ⟨rfl, rfl⟩ := List.append_eq_nil_iff.mp (parts.symm.trans none)
      exact ⟨t, [], [], rfl, .start, .start⟩
    · omega
  | succ turns ih =>
    obtain ⟨-, none, rfl, rfl⟩ | ⟨fewer, first, v, m, later, more, stepped, rest, rfl, events⟩ := run_cases ran
    · obtain ⟨rfl, rfl⟩ := List.append_eq_nil_iff.mp (parts.symm.trans none)
      exact ⟨t, [], [], rfl, .start, .start⟩
    · obtain rfl : turns = fewer := by omega
      have step := Operation.step stepped
      rw [events] at parts
      obtain ⟨middle, rfl, left⟩ | ⟨middle, left, rfl⟩ := List.append_eq_append_iff.mp parts
      · obtain ⟨p, told, more, rfl, past, future⟩ := ih rest left
        exact ⟨p, first.toList ++ told, more, (List.append_assoc ..).symm, step.history.trans past, future⟩
      · have short := length_turnEvents_le s first
        rw [left] at step short
        obtain ⟨p, told, more, same, past, future⟩ := step.splits_of_short short
        refine ⟨p, told, more ++ later, by rw [same, List.append_assoc], past, future.trans ?_⟩
        exact (Operation.run rest).history

theorem Operation.splits (call : Operation s (before ++ after) done t) : Splits s before after done t := by
  generalize parts : before ++ after = events at call
  cases call with
  | run ran => exact run_splits ran parts.symm
  | step ran =>
    have short := length_turnEvents_le s ‹_›
    rw [← parts] at short
    exact splits_of_short (parts ▸ .step ran) short
  | spawn spawned => exact splits_of_short (parts ▸ .spawn spawned) (by rw [parts]; exact Nat.le_refl 1)
  | refused refused => exact splits_of_short (parts ▸ .refused refused) (by rw [parts]; exact Nat.zero_le 1)
  | cancel found => exact splits_of_short (parts ▸ .cancel found) (by rw [parts]; exact Nat.le_refl 1)
  | missed missed => exact splits_of_short (parts ▸ .missed missed) (by rw [parts]; exact Nat.zero_le 1)

/-- Between any two events there is a moment, also within a run. -/
theorem History.splits (past : History s (before ++ after) reports u) : Splits s before after reports u := by
  generalize parts : before ++ after = trace at past
  induction past generalizing before after with
  | start =>
    obtain ⟨rfl, rfl⟩ := List.append_eq_nil_iff.mp parts
    exact ⟨s, [], [], rfl, .start, .start⟩
  | @snoc trace events reports done m u past call ih =>
    obtain ⟨middle, rfl, rfl⟩ | ⟨middle, rfl, rfl⟩ := List.append_eq_append_iff.mp parts
    · obtain ⟨p, told, more, rfl, first, second⟩ := ih rfl
      exact ⟨p, told, more ++ done, List.append_assoc .., first, second.snoc call⟩
    · obtain ⟨p, told, more, rfl, first, second⟩ := call.splits
      exact ⟨p, reports ++ told, more, (List.append_assoc ..).symm, past.trans first, second⟩

/-! ### What one event does to the queue -/

/-- How a scheduler changes with an event. -/
inductive Moves (s : Scheduler) : Event → Scheduler → Prop where
  | spawned {task : Task} (id : task.id = s.nextId) (created : task.state = .created) (turns : task.turns = 0) :
      Moves s (.spawned s.nextId) { s with queue := s.queue ++ [task], nextId := s.nextId + 1 }
  | paused {task : Task} {rest : List Task} (first : s.queue = task :: rest) {later : Task}
      (id : later.id = task.id) (turns : later.turns = task.turns + 1) :
      Moves s (.paused task.id) { s with queue := rest ++ [later], turns := s.turns + 1 }
  | ended {task : Task} {rest : List Task} (first : s.queue = task :: rest) {completion : Completion}
      (id : completion.id = task.id) (turns : completion.turns = task.turns + 1) :
      Moves s (.ended completion) { s with queue := rest, turns := s.turns + 1 }
  | cancelled {id : Nat} (queued : id ∈ s.pending) :
      Moves s (.cancelled id) { s with queue := s.queue.filter (·.id != id) }

/-- A scheduler goes from one state to another by these events. -/
inductive Course (start : Scheduler) : List Event → Scheduler → Prop where
  | start : Course start [] start
  | snoc {trace : List Event} {event : Event} {s t : Scheduler} (past : Course start trace s)
      (move : Moves s event t) : Course start (trace ++ [event]) t

theorem Moves.course {event : Event} (move : Moves s event t) : Course s [event] t := .snoc .start move

theorem Course.trans (first : Course s trace t) {more : List Event} (second : Course t more u) :
    Course s (trace ++ more) u := by
  induction second with
  | start => simpa only [List.append_nil] using first
  | snoc _ move ih => simpa only [List.append_assoc] using ih.snoc move

theorem spawn_ok {w : World} {f : FunctionId} {args : List Value} {id : Nat}
    (spawned : s.spawn w f args = (.ok id, t)) : id = s.nextId ∧ Moves s (.spawned id) t := by
  unfold spawn at spawned
  split at spawned
  · cases spawned
  · split at spawned
    · cases spawned
    · cases spawned
      exact ⟨rfl, .spawned rfl rfl rfl⟩

theorem spawn_error {w : World} {f : FunctionId} {args : List Value} {err : HostError}
    (refused : s.spawn w f args = (.error err, t)) : t = s := by
  unfold spawn at refused
  split at refused
  · cases refused; rfl
  · split at refused
    · cases refused; rfl
    · cases refused

theorem turnEnd_inl {task : Task} {result : Except Failure Drain} {e : Executor} {completion : Completion}
    (ended : turnEnd task result e = .inl completion) : completion.id = task.id ∧ completion.turns = task.turns := by
  unfold turnEnd at ended
  split at ended
  · cases ended
  · cases ended; exact ⟨rfl, rfl⟩
  · cases ended; exact ⟨rfl, rfl⟩

theorem turnEnd_inr {task later : Task} {result : Except Failure Drain} {e : Executor}
    (again : turnEnd task result e = .inr later) : later.id = task.id ∧ later.turns = task.turns := by
  unfold turnEnd at again
  split at again
  · cases again; exact ⟨rfl, rfl⟩
  · cases again
  · cases again

theorem step_course {fuel : Nat} {w w' : World} {done : Option Completion} (ran : s.step fuel w = some (done, w', t)) :
    Course s (s.turnEvents done) t ∧ completions (s.turnEvents done) = done.toList := by
  cases queue : s.queue with
  | nil =>
    obtain ⟨rfl, -, rfl⟩ := step_of_idle queue ran
    simp only [turnEvents, queue]
    exact ⟨.start, rfl⟩
  | cons task rest =>
    simp only [step, queue] at ran
    split at ran
    next => cases ran
    next result v e drained =>
      split at ran
      next completion ended =>
        cases ran
        obtain ⟨id, turns⟩ := turnEnd_inl ended
        simp only [turnEvents, queue]
        exact ⟨(Moves.ended queue id turns).course, rfl⟩
      next later again =>
        cases ran
        obtain ⟨id, turns⟩ := turnEnd_inr again
        simp only [turnEvents, queue]
        exact ⟨(Moves.paused queue id turns).course, rfl⟩

theorem run_course {fuel turns : Nat} {w w' : World} (ran : s.run fuel turns w = some (done, w', t)) :
    Course s (runEvents fuel turns w s) t ∧ completions (runEvents fuel turns w s) = done := by
  induction turns generalizing s w done with
  | zero =>
    obtain ⟨-, events, rfl, rfl⟩ | ⟨_, _, _, _, _, more, -⟩ := run_cases ran
    · exact ⟨events ▸ .start, events ▸ rfl⟩
    · omega
  | succ turns ih =>
    obtain ⟨-, events, rfl, rfl⟩ | ⟨fewer, first, v, m, later, more, stepped, rest, rfl, events⟩ := run_cases ran
    · exact ⟨events ▸ .start, events ▸ rfl⟩
    · obtain rfl : turns = fewer := by omega
      obtain ⟨turn, told⟩ := step_course stepped
      obtain ⟨others, reported⟩ := ih rest
      rw [events, completions_append, told, reported]
      exact ⟨turn.trans others, rfl⟩

theorem cancel_queued {id : Nat} (queued : id ∈ s.pending) :
    s.cancel id = (true, { s with queue := s.queue.filter (·.id != id) }) := by
  obtain ⟨task, member, rfl⟩ := List.mem_map.mp queued
  have found : s.queue.any (·.id == task.id) = true := List.any_eq_true.mpr ⟨task, member, beq_self_eq_true _⟩
  simp only [cancel, found]

theorem cancel_missing {id : Nat} (missing : id ∉ s.pending) : s.cancel id = (false, s) := by
  have absent : ∀ task ∈ s.queue, task.id ≠ id := fun task member same =>
    missing (List.mem_map.mpr ⟨task, member, same⟩)
  have none : s.queue.any (·.id == id) = false := by simpa using absent
  have same : s.queue.filter (·.id != id) = s.queue := List.filter_eq_self.mpr (by simpa using absent)
  simp only [cancel, none, same]

/-- Every call is a course, and it reports what ended on the way. -/
theorem Operation.course (call : Operation s events done t) : Course s events t ∧ completions events = done := by
  cases call with
  | spawn spawned =>
    obtain ⟨-, move⟩ := spawn_ok spawned
    exact ⟨move.course, rfl⟩
  | refused refused =>
    obtain rfl := spawn_error refused
    exact ⟨.start, rfl⟩
  | step ran => exact step_course ran
  | run ran => exact run_course ran
  | @cancel id t found =>
    by_cases queued : id ∈ s.pending
    · cases (cancel_queued queued).symm.trans found
      exact ⟨(Moves.cancelled queued).course, rfl⟩
    · cases (cancel_missing queued).symm.trans found
  | @missed id t missed =>
    by_cases queued : id ∈ s.pending
    · cases (cancel_queued queued).symm.trans missed
    · cases (cancel_missing queued).symm.trans missed
      exact ⟨.start, rfl⟩

theorem History.course (past : History s trace reports t) : Course s trace t ∧ completions trace = reports := by
  induction past with
  | start => exact ⟨.start, rfl⟩
  | snoc _ call ih =>
    obtain ⟨course, told⟩ := call.course
    exact ⟨ih.1.trans course, by rw [completions_append, ih.2, told]⟩

/-! ### The books -/

/-- What the events so far tell of a scheduler that was new before them. -/
structure Books (trace : List Event) (s : Scheduler) : Prop where
  ids : spawned trace = List.range' 1 (spawned trace).length
  next : s.nextId = (spawned trace).length + 1
  parted : ∀ id, (spawned trace).count id =
    s.pending.count id + ((completions trace).map (·.id)).count id + (cancelled trace).count id
  queued : ∀ task ∈ s.queue, task.turns = turnsOf task.id trace
  ended : ∀ completion ∈ completions trace, completion.turns = turnsOf completion.id trace
  turned : ∀ id ∈ turned trace, id ∈ spawned trace
  turns : s.turns = (Scheduler.turned trace).length

namespace Books

variable {trace : List Event} {s : Scheduler}

theorem mem_spawned (books : Books trace s) {id : Nat} : id ∈ spawned trace ↔ 0 < id ∧ id < s.nextId := by
  rw [books.ids, List.mem_range'_1, books.next]
  omega

theorem nodup (books : Books trace s) : (spawned trace).Nodup := by
  rw [books.ids]
  exact List.nodup_range'

/-- No task is in two places, and every task was spawned. -/
theorem count_le (books : Books trace s) (id : Nat) :
    s.pending.count id + ((completions trace).map (·.id)).count id + (cancelled trace).count id ≤ 1 := by
  rw [← books.parted]
  exact List.nodup_iff_count_le_one.mp books.nodup id

theorem nodup_pending (books : Books trace s) : s.pending.Nodup :=
  List.nodup_iff_count_le_one.mpr fun id => by have := books.count_le id; omega

theorem spawned_of_pending (books : Books trace s) {id : Nat} (queued : id ∈ s.pending) : id ∈ spawned trace := by
  rw [← List.count_pos_iff] at queued ⊢
  rw [books.parted]
  omega

theorem pending_lt (books : Books trace s) {id : Nat} (queued : id ∈ s.pending) : id < s.nextId :=
  (books.mem_spawned.mp (books.spawned_of_pending queued)).2

/-- Nobody's turn comes before the spawn. -/
theorem turnsOf_next (books : Books trace s) : turnsOf s.nextId trace = 0 := by
  refine List.count_eq_zero.mpr fun member => ?_
  have := (books.mem_spawned.mp (books.turned _ member)).2
  omega

/-- What has ended is not queued. -/
theorem pending_of_ended (books : Books trace s) {completion : Completion} (ended : completion ∈ completions trace) :
    completion.id ∉ s.pending := by
  intro queued
  have reported : completion.id ∈ (completions trace).map (·.id) := List.mem_map.mpr ⟨completion, ended, rfl⟩
  rw [← List.count_pos_iff] at queued reported
  have := books.count_le completion.id
  omega

/-- The first task is queued nowhere else. -/
theorem fresh_of_first (books : Books trace s) {task : Task} {rest : List Task} (first : s.queue = task :: rest) :
    ∀ other ∈ rest, other.id ≠ task.id := by
  have nodup := books.nodup_pending
  simp only [pending, first, List.map_cons, List.nodup_cons, List.mem_map, not_exists, not_and] at nodup
  exact nodup.1

theorem new (config : EngineConfig) : Books [] ({ config } : Scheduler) where
  ids := rfl
  next := rfl
  parted := fun _ => rfl
  queued := by simp
  ended := by simp [completions]
  turned := by simp [Scheduler.turned]
  turns := rfl

theorem spawn (books : Books trace s) {task : Task} (id : task.id = s.nextId) (turns : task.turns = 0) :
    Books (trace ++ [.spawned s.nextId]) { s with queue := s.queue ++ [task], nextId := s.nextId + 1 } where
  ids := by
    have more : List.range' 1 ((spawned trace).length + 1) = spawned trace ++ [s.nextId] := by
      rw [List.range'_1_concat, ← books.ids, books.next, Nat.add_comm]
    simp [more]
  next := by simp [books.next]
  parted other := by
    have before := books.parted other
    simp only [pending] at before
    simp [pending, id, before]
    omega
  queued other member := by
    rcases List.mem_append.mp member with old | new
    · simpa using books.queued other old
    · obtain rfl := List.mem_singleton.mp new
      simp [turns, id, books.turnsOf_next]
  ended completion member := by
    simpa using books.ended completion (by simpa using member)
  turned other member := by
    have before := books.turned other (by simpa using member)
    simp [before]
  turns := by simpa using books.turns

/-- The turn of the first task, which is queued again. -/
theorem pause (books : Books trace s) {task : Task} {rest : List Task} (first : s.queue = task :: rest) {later : Task}
    (id : later.id = task.id) (turns : later.turns = task.turns + 1) :
    Books (trace ++ [.paused task.id]) { s with queue := rest ++ [later], turns := s.turns + 1 } where
  ids := by simpa using books.ids
  next := by simpa using books.next
  parted other := by
    have before := books.parted other
    simp only [pending, first, List.map_cons, List.count_cons] at before
    simp [pending, id, before, List.count_cons]
  queued other member := by
    rcases List.mem_append.mp member with old | new
    · have different := books.fresh_of_first first other old
      have before := books.queued other (first ▸ List.mem_cons_of_mem _ old)
      simp [before, different.symm]
    · obtain rfl := List.mem_singleton.mp new
      simp [turns, id, books.queued task (first ▸ List.mem_cons_self ..)]
  ended completion member := by
    have ended : completion ∈ completions trace := by simpa using member
    have apart : completion.id ≠ task.id := fun same =>
      books.pending_of_ended ended (by simp [pending, first, same])
    simp [books.ended completion ended, apart.symm]
  turned other member := by
    have known : task.id ∈ spawned trace := books.spawned_of_pending (by simp [pending, first])
    obtain old | rfl : other ∈ Scheduler.turned trace ∨ other = task.id := by simpa using member
    · simpa using books.turned other old
    · simpa using known
  turns := by simp [books.turns]

/-- The turn of the first task, which was its last one. -/
theorem finish (books : Books trace s) {task : Task} {rest : List Task} (first : s.queue = task :: rest)
    {completion : Completion} (id : completion.id = task.id) (turns : completion.turns = task.turns + 1) :
    Books (trace ++ [.ended completion]) { s with queue := rest, turns := s.turns + 1 } where
  ids := by simpa using books.ids
  next := by simpa using books.next
  parted other := by
    have before := books.parted other
    simp only [pending, first, List.map_cons, List.count_cons] at before
    simp [pending, id, before, List.count_cons]
    omega
  queued other member := by
    have different := books.fresh_of_first first other member
    have before := books.queued other (first ▸ List.mem_cons_of_mem _ member)
    simp [before, id, different.symm]
  ended other member := by
    obtain old | rfl : other ∈ completions trace ∨ other = completion := by simpa using member
    · have apart : other.id ≠ task.id := fun same =>
        books.pending_of_ended old (by simp [pending, first, same])
      simp [books.ended other old, id, apart.symm]
    · simp [turns, id, books.queued task (first ▸ List.mem_cons_self ..)]
  turned other member := by
    have known : task.id ∈ spawned trace := books.spawned_of_pending (by simp [pending, first])
    obtain old | rfl : other ∈ Scheduler.turned trace ∨ other = task.id := by simpa [id] using member
    · simpa using books.turned other old
    · simpa using known
  turns := by simp [books.turns]

theorem cancel (books : Books trace s) {id : Nat} (queued : id ∈ s.pending) :
    Books (trace ++ [.cancelled id]) { s with queue := s.queue.filter (·.id != id) } where
  ids := by simpa using books.ids
  next := by simpa using books.next
  parted other := by
    have before := books.parted other
    have found := List.count_pos_iff.mpr queued
    have left : { s with queue := s.queue.filter (·.id != id) }.pending = s.pending.erase id := by
      rw [books.nodup_pending.erase_eq_filter, pending, pending, List.filter_map, Function.comp_def]
    simp only [spawned_append, spawned_singleton, Event.spawned?, Option.toList_none, List.append_nil,
      completions_append, completions_singleton, Event.completion?, cancelled_append, cancelled_singleton,
      Event.cancelled?, Option.toList_some, List.count_append, List.count_singleton, left, List.count_erase,
      beq_iff_eq]
    rw [before]
    by_cases same : id = other
    · simp only [same, if_true] at found ⊢
      omega
    · simp only [same, if_false]
      omega
  queued other member := by
    simpa using books.queued other (List.mem_of_mem_filter member)
  ended completion member := by
    simpa using books.ended completion (by simpa using member)
  turned other member := by
    simpa using books.turned other (by simpa using member)
  turns := by simpa using books.turns

theorem move (books : Books trace s) {event : Event} (move : Moves s event t) : Books (trace ++ [event]) t := by
  cases move with
  | spawned id created turns => exact books.spawn id turns
  | paused first id turns => exact books.pause first id turns
  | ended first id turns => exact books.finish first id turns
  | cancelled queued => exact books.cancel queued

end Books

theorem Books.course (books : Books before s) (course : Course s trace t) : Books (before ++ trace) t := by
  induction course with
  | start => simpa only [List.append_nil] using books
  | snoc _ move ih => simpa only [List.append_assoc] using ih.move move

theorem Course.eq_of_nil (course : Course s [] t) : t = s := by
  generalize none : ([] : List Event) = trace at course
  cases course with
  | start => rfl
  | snoc => simp at none

theorem Course.move_of_singleton {event : Event} (course : Course s [event] t) : Moves s event t := by
  generalize one : [event] = trace at course
  cases course with
  | start => cases one
  | @snoc before last m _ past move =>
    obtain ⟨rfl, same⟩ := List.append_eq_singleton_iff.mp one.symm |>.resolve_right (by simp)
    cases same
    exact past.eq_of_nil ▸ move

/-! ### Round robin -/

/-- How the order of the queue changes with an event. -/
theorem Moves.pending_cases {event : Event} (move : Moves s event t) :
    (event = .spawned s.nextId ∧ t.pending = s.pending ++ [s.nextId] ∧ t.nextId = s.nextId + 1) ∨
    (∃ first rest back, event.turn? = some first ∧ event.spawned? = none ∧ event.cancelled? = none ∧
      s.pending = first :: rest ∧ t.pending = rest ++ back ∧ back ⊆ [first] ∧ t.nextId = s.nextId) ∨
    ∃ out, event = .cancelled out ∧ t.pending = s.pending.filter (· != out) ∧ t.nextId = s.nextId := by
  cases move with
  | spawned id => exact .inl ⟨rfl, by simp [pending, id], rfl⟩
  | @paused task rest first later id =>
    exact .inr (.inl ⟨task.id, rest.map (·.id), [task.id], rfl, rfl, rfl, by simp [pending, first],
      by simp [pending, id], List.Subset.refl _, rfl⟩)
  | @ended task rest first completion id =>
    exact .inr (.inl ⟨task.id, rest.map (·.id), [], congrArg some id, rfl, rfl, by simp [pending, first],
      by simp [pending], List.nil_subset _, rfl⟩)
  | cancelled queued =>
    exact .inr (.inr ⟨_, rfl, by simp only [pending, List.filter_map, Function.comp_def], rfl⟩)

theorem Moves.first_of_turn {event : Event} (move : Moves s event t) {id : Nat} (turn : event.turn? = some id) :
    ∃ rest, s.pending = id :: rest := by
  obtain ⟨rfl, -⟩ | ⟨first, rest, -, same, -, -, place, -⟩ | ⟨out, rfl, -⟩ := move.pending_cases
  · cases turn
  · cases same.symm.trans turn
    exact ⟨rest, place⟩
  · cases turn

/-- A task that has left the queue does not come back. -/
theorem Moves.pending_of_pending {event : Event} (move : Moves s event t) {id : Nat} (known : id < s.nextId)
    (queued : id ∈ t.pending) : id ∈ s.pending := by
  obtain ⟨-, place, -⟩ | ⟨first, rest, back, -, -, -, place, next, again, -⟩ | ⟨out, -, place, -⟩ :=
    move.pending_cases
  · rw [place] at queued
    exact (List.mem_append.mp queued).resolve_right fun new => by have := List.mem_singleton.mp new; omega
  · rw [next] at queued
    rw [place]
    obtain waiting | last := List.mem_append.mp queued
    · exact List.mem_cons_of_mem _ waiting
    · exact List.mem_singleton.mp (again last) ▸ List.mem_cons_self ..
  · rw [place] at queued
    exact List.mem_of_mem_filter queued

/-- The round that began when a task was queued behind those `ahead` of it, with `opened` as the next
id. The tasks still before it are those that have had no turn since. -/
structure Round (id : Nat) (ahead : List Nat) (opened : Nat) (trace : List Event) (s : Scheduler) : Prop where
  order : ∃ left right, s.pending = left ++ id :: right ∧
    (∀ other ∈ left, other ∈ ahead ∧ turnsOf other trace = 0) ∧
    ∀ other ∈ ahead, other ∈ left ∨ other ∈ cancelled trace ∨ turnsOf other trace = 1
  newcomers : ∀ other ∈ spawned trace, opened ≤ other ∧ turnsOf other trace = 0

namespace Round

variable {id opened : Nat} {ahead : List Nat} {event : Event}

theorem start (behind : s.pending = ahead ++ [id]) : Round id ahead opened [] s where
  order := ⟨ahead, [], behind, fun _ member => ⟨member, rfl⟩, fun _ member => .inl member⟩
  newcomers := nofun

theorem spawn (round : Round id ahead opened trace s) (late : opened ≤ s.nextId)
    (unborn : turnsOf s.nextId trace = 0) (behind : t.pending = s.pending ++ [s.nextId]) :
    Round id ahead opened (trace ++ [.spawned s.nextId]) t where
  order := by
    obtain ⟨left, right, place, before, since⟩ := round.order
    exact ⟨left, right ++ [s.nextId], by simp [behind, place], by simpa using before, by simpa using since⟩
  newcomers other member := by
    obtain old | rfl : other ∈ spawned trace ∨ other = s.nextId := by simpa using member
    · simpa using round.newcomers other old
    · simpa [unborn] using late

/-- The first task is one of those ahead, which has its one turn. -/
theorem turn (round : Round id ahead opened trace s) (nodup : s.pending.Nodup)
    (old : ∀ other ∈ ahead, other < opened) {first : Nat} {rest back : List Nat} (turn : event.turn? = some first)
    (spawned : event.spawned? = none) (cancelled : event.cancelled? = none) (another : first ≠ id)
    (place : s.pending = first :: rest) (next : t.pending = rest ++ back) :
    Round id ahead opened (trace ++ [event]) t := by
  have told : Scheduler.spawned (trace ++ [event]) = Scheduler.spawned trace := by
    simp only [spawned_append, spawned_singleton, spawned, Option.toList_none, List.append_nil]
  have called : Scheduler.cancelled (trace ++ [event]) = Scheduler.cancelled trace := by
    simp only [cancelled_append, cancelled_singleton, cancelled, Option.toList_none, List.append_nil]
  have now : turnsOf first (trace ++ [event]) = turnsOf first trace + 1 := by
    simp only [turnsOf_append, turnsOf_singleton, turn, Option.toList_some, List.count_singleton_self]
  have apart : ∀ {other}, other ≠ first → turnsOf other (trace ++ [event]) = turnsOf other trace := fun different => by
    simp only [turnsOf_append, turnsOf_singleton, turn, Option.toList_some, List.count_singleton, beq_iff_eq,
      different.symm, if_false, Nat.add_zero]
  obtain ⟨left, right, order, before, since⟩ := round.order
  cases left with
  | nil => exact absurd (List.cons.inj (place.symm.trans order)).1 another
  | cons head left =>
    obtain ⟨rfl, rfl⟩ := List.cons.inj (place.symm.trans order)
    obtain ⟨inside, none⟩ := before first (List.mem_cons_self ..)
    rw [place] at nodup
    refine ⟨⟨left, right ++ back, next.trans (List.append_assoc ..), ?_, ?_⟩, ?_⟩
    · intro other member
      have different : other ≠ first := fun same =>
        (List.nodup_cons.mp nodup).1 (same ▸ List.mem_append_left _ member)
      obtain ⟨inside, none⟩ := before other (List.mem_cons_of_mem _ member)
      exact ⟨inside, (apart different).trans none⟩
    · intro other member
      rw [called]
      by_cases same : other = first
      · rw [same, now, none]
        exact .inr (.inr rfl)
      · rw [apart same]
        obtain waiting | since := since other member
        · exact .inl ((List.mem_cons.mp waiting).resolve_left same)
        · exact .inr since
    · intro newcomer member
      rw [told] at member
      obtain ⟨late, none⟩ := round.newcomers newcomer member
      have different : newcomer ≠ first := fun same => by have := old first inside; omega
      exact ⟨late, (apart different).trans none⟩

theorem cancel (round : Round id ahead opened trace s) {out : Nat} (another : id ≠ out)
    (place : t.pending = s.pending.filter (· != out)) : Round id ahead opened (trace ++ [.cancelled out]) t where
  order := by
    obtain ⟨left, right, order, before, since⟩ := round.order
    refine ⟨left.filter (· != out), right.filter (· != out), by simp [place, order, another], ?_, ?_⟩
    · intro other member
      simpa using before other (List.mem_of_mem_filter member)
    · intro other member
      by_cases gone : other = out
      · exact .inr (.inl (by simp [gone]))
      · simpa [gone] using since other member
  newcomers other member := by simpa using round.newcomers other (by simpa using member)

end Round

theorem Course.nextId_le (course : Course s trace t) : s.nextId ≤ t.nextId := by
  induction course with
  | start => exact Nat.le_refl _
  | snoc _ move ih =>
    obtain ⟨-, -, next⟩ | ⟨_, _, _, -, -, -, -, -, -, next⟩ | ⟨_, -, -, next⟩ := move.pending_cases
    all_goals omega

/-- As long as a task waits for its next turn, the round goes on. -/
theorem round_of_course {id : Nat} {ahead : List Nat} (books : Books before s) (behind : s.pending = ahead ++ [id])
    (course : Course s trace t) (waits : id ∉ turned trace) (queued : id ∈ t.pending) :
    Round id ahead s.nextId trace t := by
  have known : ∀ {other}, other ∈ s.pending → other < s.nextId := books.pending_lt
  rw [behind] at known
  induction course with
  | start => exact .start behind
  | @snoc trace event m t past move ih =>
    have late := past.nextId_le
    have queued' : id ∈ m.pending :=
      move.pending_of_pending (Nat.lt_of_lt_of_le (known (List.mem_append_right _ (List.mem_singleton_self _))) late) queued
    have round := ih (by simp_all) queued'
    have booked := books.course past
    obtain ⟨rfl, place, -⟩ | ⟨first, rest, back, turn, spawned, cancelled, place, next, -, -⟩ | ⟨out, rfl, place, -⟩ :=
      move.pending_cases
    · have unborn := booked.turnsOf_next
      rw [turnsOf_append] at unborn
      exact round.spawn late (by omega) place
    · have another : first ≠ id := by
        rintro rfl
        simp [-Event.turn?, turn] at waits
      exact round.turn booked.nodup_pending (fun _ member => known (List.mem_append_left _ member)) turn spawned
        cancelled another place next
    · rw [place, List.mem_filter] at queued
      exact round.cancel (by simpa using queued.2) place

/-- Between two turns of a task with no other between them every task that was queued when it was
queued again has one turn, unless it is cancelled, and the tasks that are spawned have none. -/
theorem turns_between {id : Nat} {first second : Event} {m : Scheduler} (books : Books before s)
    (one : Moves s first t) (turn : first.turn? = some id) (course : Course t trace m) (waits : id ∉ turned trace)
    (two : Moves m second u) (again : second.turn? = some id) :
    (∀ other ∈ t.pending, other ≠ id → other ∉ cancelled trace → turnsOf other trace = 1) ∧
      ∀ other ∈ spawned trace, turnsOf other trace = 0 := by
  have booked := books.move one
  have now := booked.course course
  obtain ⟨rest, place⟩ := two.first_of_turn again
  have queued : id ∈ m.pending := place ▸ List.mem_cons_self ..
  obtain ⟨ahead, behind⟩ : ∃ ahead, t.pending = ahead ++ [id] := by
    cases one with
    | spawned => cases turn
    | cancelled => cases turn
    | @ended task rest first completion same =>
      cases turn
      have ended : completion ∈ completions (before ++ [.ended completion] ++ trace) := by
        rw [completions_append, completions_append]
        exact List.mem_append_left _ (List.mem_append_right _ (List.mem_singleton_self _))
      exact absurd queued (now.pending_of_ended ended)
    | @paused task rest first later same =>
      cases turn
      exact ⟨rest.map (·.id), by simp [pending, same]⟩
  have round := round_of_course booked behind course waits queued
  obtain ⟨left, right, order, -, since⟩ := round.order
  refine ⟨fun other member another kept => ?_, fun other member => (round.newcomers other member).2⟩
  -- its turn has come, so nobody is left before it
  have none : left = [] := by
    have nodup := now.nodup_pending
    cases left with
    | nil => rfl
    | cons head left =>
      obtain ⟨rfl, -⟩ := List.cons.inj (place.symm.trans order)
      rw [order] at nodup
      simp at nodup
  have member : other ∈ ahead := by
    rw [behind] at member
    exact (List.mem_append.mp member).resolve_right (by simpa using another)
  obtain waiting | gone | once := since other member
  · rw [none] at waiting
    cases waiting
  · exact absurd gone kept
  · exact once

/-! ### What is true at each moment -/

theorem sum_turnsOf {ids : List Nat} (nodup : ids.Nodup) (within : ∀ id ∈ turned trace, id ∈ ids) :
    (ids.map (turnsOf · trace)).sum = (turned trace).length := by
  have counted := Multiset.sum_count_eq_card (s := ids.toFinset) (m := (turned trace : Multiset Nat)) (by simpa using within)
  rw [List.sum_toFinset _ nodup] at counted
  simpa [turnsOf] using counted

/-- Cancelling a task takes that one out of the queue. -/
theorem Books.cancel_cases (books : Books trace s) (id : Nat) :
    (∃ left task right, task.id = id ∧ s.queue = left ++ task :: right ∧
      s.cancel id = (true, { s with queue := left ++ right })) ∨
    id ∉ s.pending ∧ s.cancel id = (false, s) := by
  by_cases queued : id ∈ s.pending
  · obtain ⟨task, member, rfl⟩ := List.mem_map.mp queued
    obtain ⟨left, right, place⟩ := List.append_of_mem member
    have nodup := books.nodup_pending
    rw [pending, place, List.map_append, List.map_cons, List.nodup_middle, List.nodup_cons, ← List.map_append] at nodup
    have others : ∀ other ∈ left ++ right, other.id ≠ task.id := fun other member same =>
      nodup.1 (List.mem_map.mpr ⟨other, member, same⟩)
    have kept : s.queue.filter (·.id != task.id) = left ++ right := calc
      s.queue.filter (·.id != task.id) = (left ++ right).filter (·.id != task.id) := by simp [place]
      _ = left ++ right := List.filter_eq_self.mpr (by simpa using others)
    exact .inl ⟨left, task, right, rfl, place, by rw [cancel_queued queued, kept]⟩
  · exact .inr ⟨queued, cancel_missing queued⟩

/-- Cancelling a task tells nothing new of the others. -/
theorem state?_cancel (s : Scheduler) {id other : Nat} (another : other ≠ id) :
    (s.cancel id).2.state? other = s.state? other := by
  have same : (fun task : Task => decide ((task.id != id) = true ∧ (task.id == other) = true)) =
      fun task => task.id == other := by
    funext task
    by_cases found : task.id = other
    · simp [found, another]
    · simp [found]
  simp only [state?, cancel, List.find?_filter, same]

/-- What is true of a scheduler that was new before calls with these events and reports. -/
structure Bookkept (config : EngineConfig) (trace : List Event) (reports : List Completion) (s : Scheduler) : Prop where
  /-- The tasks have the ids from 1 on in the order of their spawns, and the next id is the next one. -/
  ids : spawned trace ++ [s.nextId] = List.range' 1 ((spawned trace).length + 1)
  /-- A spawn that fails changes nothing. -/
  refused : ∀ w f args err, (s.spawn w f args).1 = .error err → (s.spawn w f args).2 = s
  /-- A task that was spawned is either queued or reported, once, or it was cancelled. -/
  parted : (spawned trace).Perm (s.pending ++ reports.map (·.id) ++ cancelled trace)
  /-- From a turn of a task to its next one every other task that was queued when it was queued again
  has one turn, unless it is cancelled, and the tasks that are spawned in between have none. -/
  fair : ∀ id before first mid second after, trace = before ++ first :: (mid ++ second :: after) →
    first.turn? = some id → second.turn? = some id → id ∉ turned mid →
      ∃ t told more, reports = told ++ more ∧ History { config } (before ++ [first]) told t ∧
        History t (mid ++ second :: after) more s ∧
        (∀ other ∈ t.pending, other ≠ id → other ∉ cancelled mid → turnsOf other mid = 1) ∧
        ∀ other ∈ spawned mid, turnsOf other mid = 0
  /-- A cancelled task is taken out of the queue, and the others stay as they are, in their order. -/
  cancels : ∀ id, (∃ left task right, task.id = id ∧ s.queue = left ++ task :: right ∧
      s.cancel id = (true, { s with queue := left ++ right })) ∨
    id ∉ s.pending ∧ s.cancel id = (false, s)
  states : ∀ id other, other ≠ id → (s.cancel id).2.state? other = s.state? other
  /-- Every task has its own turns counted. -/
  queued : ∀ task ∈ s.queue, task.turns = turnsOf task.id trace
  reported : ∀ completion ∈ reports, completion.turns = turnsOf completion.id trace
  /-- The turns of the scheduler are those of all its tasks. -/
  turns : s.turns = ((spawned trace).map (turnsOf · trace)).sum

/-- The part of `Bookkept` that is about two turns of a task. -/
theorem History.fair {config : EngineConfig} {id : Nat} {first second : Event} {mid : List Event}
    (past : History { config } (before ++ first :: (mid ++ second :: after)) reports u)
    (turn : first.turn? = some id) (again : second.turn? = some id) (waits : id ∉ turned mid) :
    ∃ t told more, reports = told ++ more ∧ History { config } (before ++ [first]) told t ∧
      History t (mid ++ second :: after) more u ∧
      (∀ other ∈ t.pending, other ≠ id → other ∉ cancelled mid → turnsOf other mid = 1) ∧
      ∀ other ∈ spawned mid, turnsOf other mid = 0 := by
  rw [List.append_cons] at past
  obtain ⟨t, told, more, rfl, earlier, since⟩ := past.splits
  obtain ⟨s, _, _, -, begun, one⟩ := earlier.splits
  obtain ⟨m, _, _, -, course, rest⟩ := since.splits
  rw [← List.singleton_append] at rest
  obtain ⟨v, _, _, -, two, -⟩ := rest.splits
  refine ⟨t, told, more, rfl, earlier, since, ?_⟩
  have books := (Books.new config).course begun.course.1
  exact turns_between books one.course.1.move_of_singleton turn course.course.1 waits two.course.1.move_of_singleton again

theorem History.bookkept {config : EngineConfig} (past : History { config } trace reports s) :
    Bookkept config trace reports s := by
  obtain ⟨course, rfl⟩ := past.course
  have books : Books trace s := (Books.new config).course course
  exact {
    ids := by rw [List.range'_1_concat, ← books.ids, books.next, Nat.add_comm]
    refused := fun w f args err refused => spawn_error (Prod.ext refused rfl)
    parted := List.perm_iff_count.mpr fun id => by simpa only [List.count_append] using books.parted id
    fair := by
      rintro id before first mid second after rfl turn again waits
      exact past.fair turn again waits
    cancels := books.cancel_cases
    states := fun _ _ another => s.state?_cancel another
    queued := books.queued
    reported := books.ended
    turns := books.turns.trans (sum_turnsOf books.nodup books.turned).symm }

private def rounds : World :=
  { functions := #[.script ⟨"rounds", 0, 2, [.function ⟨1⟩], [.loadConst 0 0, .call 0 0 0, .ret 0 0]⟩, .builtin .pause] }

private def spawning (s : Scheduler) : Scheduler := (s.spawn rounds ⟨0⟩ []).2

private def turning (s : Scheduler) : Scheduler := ((s.step 20 rounds).map (·.2.2)).getD s

private def ending (s : Scheduler) : Scheduler := ((s.run 20 9 rounds).map (·.2.2)).getD s

private def lone : Scheduler := spawning { config := { stackCapacity := 3 } }

private def joined : Scheduler := spawning (turning (spawning lone))

private def parting : Scheduler := ((turning joined).cancel 3).2

private def reported (s : Scheduler) : List Completion := ((s.run 20 9 rounds).map (·.1)).getD []

private theorem spawning_operation {s : Scheduler} {id : Nat}
    (told : (s.spawn rounds ⟨0⟩ []).1.toOption = some id) : Operation s [.spawned id] [] (spawning s) := by
  rcases spawned : s.spawn rounds ⟨0⟩ [] with ⟨answer, t⟩
  have next : spawning s = t := by rw [spawning, spawned]
  rw [spawned] at told
  rw [next]
  cases answer with
  | error _ => cases told
  | ok _ =>
    cases told
    exact .spawn spawned

private theorem turning_operation {s : Scheduler} (told : (s.step 20 rounds).map (·.1.isNone) = some true) :
    Operation s (s.turnEvents none) [] (turning s) := by
  obtain ⟨⟨done, w, t⟩, stepped, unended⟩ := Option.map_eq_some_iff.mp told
  have next : turning s = t := by rw [turning, stepped]; rfl
  cases done with
  | some _ => cases unended
  | none =>
    rw [next]
    exact .step stepped

private theorem ending_operation {s : Scheduler} (told : (s.run 20 9 rounds).isSome = true) :
    Operation s (runEvents 20 9 rounds s) (reported s) (ending s) := by
  obtain ⟨⟨done, w, t⟩, ran⟩ := Option.isSome_iff_exists.mp told
  have last : ending s = t := by rw [ending, ran]; rfl
  have reports : reported s = done := by rw [reported, ran]; rfl
  rw [last, reports]
  exact .run ran

/-- Two tasks take turns, while a third one comes and goes. -/
theorem History.bookkept_rounds : ∃ trace reports s, Bookkept { stackCapacity := 3 } trace reports s ∧
    trace.map Event.turn? = [none, none, some 1, none, some 2, none, some 1, some 2] ∧
    spawned trace = [1, 2, 3] ∧ cancelled trace = [3] ∧
    reports.map (fun completion => (completion.id, completion.turns)) = [(1, 2), (2, 2)] ∧ s.turns = 4 := by
  have first : Operation { config := { stackCapacity := 3 } } [.spawned 1] [] lone :=
    spawning_operation (by decide +kernel)
  have second : Operation lone [.spawned 2] [] (spawning lone) := spawning_operation (by decide +kernel)
  have third := turning_operation (s := spawning lone) (by decide +kernel)
  have fourth : Operation (turning (spawning lone)) [.spawned 3] [] joined := spawning_operation (by decide +kernel)
  have fifth := turning_operation (s := joined) (by decide +kernel)
  have found : ((turning joined).cancel 3).1 = true := by decide +kernel
  have sixth : Operation (turning joined) [.cancelled 3] [] parting := .cancel (Prod.ext found rfl)
  have last := ending_operation (s := parting) (by decide +kernel)
  have past := (first.history.snoc second).snoc third |>.snoc fourth |>.snoc fifth |>.snoc sixth |>.snoc last
  exact ⟨_, _, _, past.bookkept, by decide +kernel, by decide +kernel, by decide +kernel, by decide +kernel,
    by decide +kernel⟩

end Scheduler

end CoopScript
