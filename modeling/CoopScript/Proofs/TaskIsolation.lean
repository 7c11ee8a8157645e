import CoopScript.Proofs.PauseCount
import CoopScript.Proofs.SchedulerHistory
import CoopScript.Proofs.SharedWorlds

/-! Tasks that do not influence one another. A task and the others may know the same scripts, tables
and functions of the library, but no iteration is known to both. Then whatever the others do, and
however their turns fall, the task pauses for the same reasons, after as many turns comes to the same
end, and answers with the same as the call would with nobody else there. -/

namespace CoopScript

namespace Part

variable {part : Part} {w : World}

/-- The part leads to nothing outside of it. Its functions are scripts, functions of the library that
work on values and nothing else, and iterations. -/
structure Closed (part : Part) (w : World) : Prop where
  twin : w.Twin part.pairing w
  objects : ∀ u, part.objects u → u.index < w.objects.size

theorem SelfContained.closed (selfContained : part.SelfContained w) : part.Closed w :=
  ⟨selfContained.twin (.of_same rfl rfl rfl), selfContained.objects⟩

theorem twins_of_given {P : Pairing} {f : FunctionId} {args : List Value} (given : ∀ x ∈ .function f :: args, part.Has x)
    (within : part.pairing.Within P) : P.functions f f ∧ Values.Twin P args args := by
  obtain ⟨known, values⟩ := List.forall_mem_cons.mp given
  exact ⟨within.functions f f ⟨known, rfl⟩, List.forall₂_same.mpr fun x member => ((values x member).twin).mono within⟩

end Part

namespace Executor

variable {w v u : World} {d e : Executor} {reasons more : List SuspendReason} {result : Except Failure (List Value)}

/-- A pending call that is drained until it finishes or fails, with nothing else going on in its world:
the reasons for which it was suspended, and what comes of it. -/
inductive Alone : World → Executor → List SuspendReason → Except Failure (List Value) → Prop where
  | finished {w v : World} {e after : Executor} {fuel : Nat} (ran : drain fuel w e = some (.ok .finished, v, after)) :
      Alone w e [] (.ok after.results)
  | failed {w v : World} {e after : Executor} {fuel : Nat} {err : Failure}
      (ran : drain fuel w e = some (.error err, v, after)) : Alone w e [] (.error err)
  | paused {w v : World} {e after : Executor} {fuel : Nat} {reason : SuspendReason} {reasons : List SuspendReason}
      {result : Except Failure (List Value)} (ran : drain fuel w e = some (.ok .paused, v, after))
      (why : after.lastReason = some reason) (rest : Alone v after reasons result) : Alone w e (reason :: reasons) result

/-- A call by itself goes one way. -/
theorem Alone.unique {reasons' : List SuspendReason} {result' : Except Failure (List Value)}
    (alone : Alone w e reasons result) (alone' : Alone w e reasons' result') : reasons' = reasons ∧ result' = result := by
  induction alone generalizing reasons' result' with
  | finished ran | failed ran =>
    cases alone' with
    | finished ran' | failed ran' | paused ran' =>
      cases drain_unique ran ran' <;> exact ⟨rfl, rfl⟩
  | paused ran why rest ih =>
    cases alone' with
    | finished ran' | failed ran' => cases drain_unique ran ran'
    | paused ran' why' rest' =>
      cases drain_unique ran ran'
      cases why.symm.trans why'
      obtain ⟨rfl, rfl⟩ := ih rest'
      exact ⟨rfl, rfl⟩

/-- Drains that all end in a suspension, with the reasons. -/
inductive Pauses (w : World) (e : Executor) : List SuspendReason → World → Executor → Prop where
  | none : Pauses w e [] w e
  | snoc {v v' : World} {d d' : Executor} {reasons : List SuspendReason} {reason : SuspendReason} {fuel : Nat}
      (past : Pauses w e reasons v d) (ran : drain fuel v d = some (.ok .paused, v', d'))
      (why : d'.lastReason = some reason) : Pauses w e (reasons ++ [reason]) v' d'

theorem Pauses.alone (pauses : Pauses w e reasons v d) (rest : Alone v d more result) :
    Alone w e (reasons ++ more) result := by
  induction pauses generalizing more with
  | none => exact rest
  | snoc past ran why ih =>
    rw [List.append_assoc]
    exact ih (.paused ran why rest)

theorem Pauses.eq_of_nil (pauses : Pauses w e [] v d) : v = w ∧ d = e := by
  generalize none : ([] : List SuspendReason) = reasons at pauses
  cases pauses with
  | none => exact ⟨rfl, rfl⟩
  | snoc => simp at none

/-- A new executor with a call knows what the call was given. -/
theorem Twin.called {config : EngineConfig} {P : Pairing} {f : FunctionId} {args : List Value}
    (made : Executor.new config = .ok d) (worlds : u.Twin P w) (function : P.functions f f)
    (values : Values.Twin P args args) : (d.pushCall f args).2.Twin P (d.pushCall f args).2 :=
  .of_machine (pushCall_twin (Sound.new (w := w) made).clear (new_resting made) worlds function values)

end Executor

namespace Scheduler

variable {s t : Scheduler} {w v : World} {fuel : Nat} {done : Option Completion}

/-- The task after a turn in which it was suspended. -/
def again (task : Task) (e : Executor) : Task :=
  { task with executor := e, state := .suspended (e.lastReason.getD .preempted), turns := task.turns + 1 }

/-- What a turn can come to. -/
inductive Turn (fuel : Nat) (w : World) (s : Scheduler) : Option Completion → World → Scheduler → Prop where
  | idle (empty : s.queue = []) : Turn fuel w s none w s
  | paused {task : Task} {rest : List Task} {v : World} {e : Executor} (first : s.queue = task :: rest)
      (ran : task.executor.drain fuel w = some (.ok .paused, v, e)) :
      Turn fuel w s none v { s with queue := rest ++ [again task e], turns := s.turns + 1 }
  | finished {task : Task} {rest : List Task} {v : World} {e : Executor} (first : s.queue = task :: rest)
      (ran : task.executor.drain fuel w = some (.ok .finished, v, e)) :
      Turn fuel w s (some ⟨task.id, task.name, .ok e.results, task.turns + 1⟩) v
        { s with queue := rest, turns := s.turns + 1 }
  | failed {task : Task} {rest : List Task} {v : World} {e : Executor} {err : Failure} (first : s.queue = task :: rest)
      (ran : task.executor.drain fuel w = some (.error err, v, e)) :
      Turn fuel w s (some ⟨task.id, task.name, .error err, task.turns + 1⟩) v
        { s with queue := rest, turns := s.turns + 1 }

theorem Turn.of_step (ran : s.step fuel w = some (done, v, t)) : Turn fuel w s done v t := by
  cases first : s.queue with
  | nil =>
    obtain ⟨rfl, rfl, rfl⟩ := step_of_idle first ran
    exact .idle first
  | cons task rest =>
    cases drained : task.executor.drain fuel w with
    | none => simp [step, first, drained] at ran
    | some left =>
      obtain ⟨result, v, e⟩ := left
      rcases result with err | (_ | _)
      all_goals simp only [step, first, drained, turnEnd] at ran
      · cases ran
        exact .failed first drained
      · cases ran
        exact .paused first drained
      · cases ran
        exact .finished first drained

/-- A call that was set up waits as a new task. -/
theorem spawn_called {f : FunctionId} {args : List Value} {id : Nat} (spawned : s.spawn w f args = (.ok id, t)) :
    ∃ d, Executor.new s.config = .ok d ∧ t = { s with
      queue := s.queue ++ [{ id := s.nextId, name := w.functionName f, executor := (d.pushCall f args).2 }]
      nextId := s.nextId + 1 } := by
  unfold spawn at spawned
  split at spawned
  · cases spawned
  · next d made =>
    split at spawned
    · cases spawned
    · next executor called =>
      cases spawned
      refine ⟨d, made, ?_⟩
      rw [called]

/-- What becomes of a scheduler and its world while a task is watched, until it ends: others are
spawned that know this part only, tasks have their turns, and others are cancelled. After each of its
turns the watched task is asked for its state. -/
inductive Meanwhile (part : Part) (id : Nat) (w : World) (s : Scheduler) :
    List (Option TaskState) → World → Scheduler → Prop where
  | start : Meanwhile part id w s [] w s
  | spawned {states : List (Option TaskState)} {v : World} {t : Scheduler} (past : Meanwhile part id w s states v t)
      (f : FunctionId) (args : List Value) (given : ∀ x ∈ .function f :: args, part.Has x) :
      Meanwhile part id w s states v (t.spawn v f args).2
  | stepped {states : List (Option TaskState)} {v v' : World} {t u : Scheduler} {fuel : Nat}
      {done : Option Completion} (past : Meanwhile part id w s states v t) (ran : t.step fuel v = some (done, v', u))
      (another : ∀ completion ∈ done, completion.id ≠ id) :
      Meanwhile part id w s (states ++ if t.pending.head? = some id then [u.state? id] else []) v' u
  | cancelled {states : List (Option TaskState)} {v : World} {t : Scheduler} (past : Meanwhile part id w s states v t)
      {other : Nat} (another : other ≠ id) : Meanwhile part id w s states v (t.cancel other).2

/-- What is known of a task that is watched and of the others, at any time. By itself its call would
now be on the executor `d` in the world `u`, after as many suspensions as the task has had turns. -/
structure Watched (config : EngineConfig) (mine theirs : Part) (id : Nat) (P K : Pairing) (turns : Nat) (u : World)
    (d : Executor) (w : World) (s : Scheduler) : Prop where
  config : s.config = config
  books : ∃ trace, Books trace s
  own : mine.pairing.Within P
  part : theirs.pairing.Within K
  divided : World.Divided P K u w
  others : ∀ task ∈ s.queue, task.id ≠ id → task.executor.Twin K task.executor
  watched : ∀ task ∈ s.queue, task.id = id → task.turns = turns ∧ Executor.Mirrors mine.pairing P u d task.executor

namespace Watched

variable {config : EngineConfig} {mine theirs : Part} {id turns : Nat} {P K : Pairing} {u : World} {d : Executor}

/-- At the start there is nobody. -/
theorem new {origin : World} (ours : mine.Closed origin) (others : theirs.Closed origin)
    (apart : ∀ f cursor, mine.functions f → theirs.functions f → origin.callable f ≠ .matches cursor) (id : Nat)
    (d : Executor) :
    Watched config mine theirs id mine.pairing theirs.pairing 0 origin d origin { config } := by
  refine ⟨rfl, ⟨[], .new config⟩, .refl _, .refl _, ⟨ours.twin, others.twin, ?objects, ?apart⟩, List.forall_mem_nil _,
    List.forall_mem_nil _⟩
  case objects =>
    rintro x (known | known)
    · exact ours.objects x known
    · exact others.objects x known
  case apart =>
    rintro f _ ⟨known, rfl⟩ ⟨g, ⟨knows, -⟩ | ⟨knows, rfl⟩⟩ cursor
    · exact apart _ cursor known knows
    · exact apart _ cursor known knows

/-- A call that is set up is one more of the others. -/
theorem spawned (now : Watched config mine theirs id P K turns u d w s) {f : FunctionId} {args : List Value}
    (given : ∀ x ∈ .function f :: args, theirs.Has x) {other : Nat} (another : other ≠ id)
    (spawned : s.spawn w f args = (.ok other, t)) : Watched config mine theirs id P K turns u d w t := by
  obtain ⟨trace, books⟩ := now.books
  have booked := books.course (Operation.spawn spawned).course.1
  obtain ⟨e, made, rfl⟩ := spawn_called spawned
  obtain ⟨rfl, -⟩ := spawn_ok spawned
  obtain ⟨function, values⟩ := Part.twins_of_given given now.part
  refine ⟨now.config, ⟨_, booked⟩, now.own, now.part, now.divided, ?others, ?watched⟩
  case others =>
    intro task member apart
    rcases List.mem_append.mp member with old | new
    · exact now.others task old apart
    · obtain rfl := List.mem_singleton.mp new
      exact .called made now.divided.others function values
  case watched =>
    intro task member same
    rcases List.mem_append.mp member with old | new
    · exact now.watched task old same
    · obtain rfl := List.mem_singleton.mp new
      exact absurd same another

/-- The call to be watched is set up. -/
theorem begun {e : Executor} {f : FunctionId} {args : List Value}
    (now : Watched config mine theirs id P K 0 u (e.pushCall f args).2 w s) (made : Executor.new config = .ok e)
    (discreet : ((e.pushCall f args).2.machine u).Discreet mine.pairing)
    (given : ∀ x ∈ .function f :: args, mine.Has x) (spawned : s.spawn w f args = (.ok id, t)) :
    Watched config mine theirs id P K 0 u (e.pushCall f args).2 w t := by
  obtain ⟨trace, books⟩ := now.books
  have booked := books.course (Operation.spawn spawned).course.1
  obtain ⟨e', made', rfl⟩ := spawn_called spawned
  obtain ⟨rfl, -⟩ := spawn_ok spawned
  cases made.symm.trans (now.config ▸ made')
  obtain ⟨function, values⟩ := Part.twins_of_given given now.own
  refine ⟨now.config, ⟨_, booked⟩, now.own, now.part, now.divided, ?others, ?watched⟩
  case others =>
    intro task member apart
    rcases List.mem_append.mp member with old | new
    · exact now.others task old apart
    · obtain rfl := List.mem_singleton.mp new
      exact absurd rfl apart
  case watched =>
    intro task member same
    rcases List.mem_append.mp member with old | new
    · have early := books.pending_lt (List.mem_map.mpr ⟨task, old, same⟩)
      exact absurd early (Nat.lt_irrefl _)
    · obtain rfl := List.mem_singleton.mp new
      exact ⟨rfl, now.own, discreet, .called made now.divided.own function values⟩

theorem cancelled (now : Watched config mine theirs id P K turns u d w s) (other : Nat) :
    Watched config mine theirs id P K turns u d w (s.cancel other).2 := by
  obtain ⟨trace, books⟩ := now.books
  have booked : ∃ trace, Books trace (s.cancel other).2 := by
    rcases called : s.cancel other with ⟨_ | _, t⟩
    · exact ⟨_, books.course (Operation.missed called).course.1⟩
    · exact ⟨_, books.course (Operation.cancel called).course.1⟩
  refine ⟨now.config, booked, now.own, now.part, now.divided, ?_, ?_⟩
  · exact fun task member => now.others task (List.mem_of_mem_filter member)
  · exact fun task member => now.watched task (List.mem_of_mem_filter member)

/-- One of the others has had a turn. -/
theorem others_turn (now : Watched config mine theirs id P K turns u d w s) {task : Task} {rest back : List Task}
    {result : Except Failure Drain} {e : Executor} (first : s.queue = task :: rest) (another : task.id ≠ id)
    (ran : task.executor.drain fuel w = some (result, v, e))
    (behind : ∀ later ∈ back, later.id = task.id ∧ later.executor = e) {n : Nat}
    (books : ∃ trace, Books trace { s with queue := rest ++ back, turns := n }) :
    ∃ Q, Watched config mine theirs id P Q turns u d v { s with queue := rest ++ back, turns := n } := by
  have known := now.others task (first ▸ List.mem_cons_self ..) another
  obtain ⟨precedes, Q, onward, world, left⟩ := known.drain now.divided.others ran
  refine ⟨Q, now.config, books, now.own, now.part.trans onward.toWithin,
    now.divided.others_ran precedes onward world, ?others, ?watched⟩
  case others =>
    intro other member apart
    rcases List.mem_append.mp member with old | new
    · exact (now.others other (first ▸ List.mem_cons_of_mem _ old) apart).mono onward.toWithin
    · rw [(behind other new).2]
      exact left
  case watched =>
    intro other member same
    rcases List.mem_append.mp member with old | new
    · exact now.watched other (first ▸ List.mem_cons_of_mem _ old) same
    · exact absurd ((behind other new).1.symm.trans same) another

/-- The watched task has had a turn, and the call by itself can be drained as well. -/
theorem own_drain (now : Watched config mine theirs id P K turns u d w s) {task : Task} {rest : List Task}
    {result : Except Failure Drain} {e : Executor} (first : s.queue = task :: rest) (same : task.id = id)
    (ran : task.executor.drain fuel w = some (result, v, e)) :
    task.turns = turns ∧ ∃ Q u' d', d.drain fuel u = some (result, u', d') ∧ World.Divided Q K u' v ∧
      Executor.Settled mine.pairing Q u' result d' e ∧ mine.pairing.Within Q := by
  obtain ⟨count, mirrors⟩ := now.watched task (first ▸ List.mem_cons_self ..) same
  obtain ⟨precedes, Q, u', d', drained, onward, world, settled⟩ := mirrors.drain now.divided.own ran
  exact ⟨count, Q, u', d', drained, now.divided.own_ran precedes onward world, settled,
    now.own.trans onward.toWithin⟩

/-- The watched task has had a turn and is queued again. -/
theorem own_turn (now : Watched config mine theirs id P K turns u d w s) {task : Task} {rest : List Task}
    {e : Executor} (first : s.queue = task :: rest) (same : task.id = id)
    (ran : task.executor.drain fuel w = some (.ok .paused, v, e))
    (queued : t = { s with queue := rest ++ [again task e], turns := s.turns + 1 }) (books : ∃ trace, Books trace t) :
    ∃ Q u' d' reason, d.drain fuel u = some (.ok .paused, u', d') ∧ d'.lastReason = some reason ∧
      t.state? id = some (.suspended reason) ∧ Watched config mine theirs id Q K (turns + 1) u' d' v t := by
  subst queued
  obtain ⟨counted, Q, u', d', drained, divided, settled, own⟩ := now.own_drain first same ran
  obtain ⟨reason, why, why'⟩ := settled.reason rfl
  obtain ⟨trace, booked⟩ := now.books
  have apart (other : Task) (member : other ∈ rest) : other.id ≠ id := same ▸ booked.fresh_of_first first other member
  have either (other : Task) (member : other ∈ rest ++ [again task e]) : other ∈ rest ∨ other = again task e := by
    simpa using member
  refine ⟨Q, u', d', reason, drained, why, ?_, now.config, books, own, now.part, divided, ?others, ?watched⟩
  · have none : rest.find? (·.id == id) = none := by simpa using apart
    simp [state?, again, none, same, why']
  case others =>
    intro other member another
    rcases either other member with old | rfl
    · exact now.others other (first ▸ List.mem_cons_of_mem _ old) another
    · exact absurd same another
  case watched =>
    intro other member known
    rcases either other member with old | rfl
    · exact absurd known (apart other old)
    · exact ⟨congrArg (· + 1) counted, settled.mirrors rfl⟩

/-- The watched task has ended, and the call by itself does so too. -/
theorem own_end (now : Watched config mine theirs id P K turns u d w s) {completion : Completion}
    (turn : Turn fuel w s (some completion) v t) (reported : completion.id = id) :
    completion.turns = turns + 1 ∧ ∃ result Q, Executor.Alone u d [] result ∧ mine.pairing.Within Q ∧ Q.OneToOne ∧
      Likewise (Values.Twin Q) result completion.result := by
  cases turn with
  | finished first ran =>
    obtain ⟨counted, Q, u', d', drained, divided, settled, own⟩ := now.own_drain first reported ran
    exact ⟨congrArg (· + 1) counted, _, Q, .finished drained, own, divided.own.oneToOne, .ok (settled.results rfl)⟩
  | failed first ran =>
    obtain ⟨counted, Q, u', d', drained, divided, settled, own⟩ := now.own_drain first reported ran
    exact ⟨congrArg (· + 1) counted, _, Q, .failed drained, own, divided.own.oneToOne, .error _⟩

end Watched

section

variable {config : EngineConfig} {mine theirs part : Part} {id turns : Nat} {states : List (Option TaskState)}

theorem Meanwhile.nextId_le (meanwhile : Meanwhile part id w s states v t) : s.nextId ≤ t.nextId := by
  induction meanwhile with
  | start => exact Nat.le_refl _
  | @spawned _ v t _ f args _ ih =>
    rcases called : t.spawn v f args with ⟨_ | _, t'⟩
    · exact ih.trans (Operation.refused called).course.1.nextId_le
    · exact ih.trans (Operation.spawn called).course.1.nextId_le
  | stepped _ ran _ ih => exact ih.trans (Operation.step ran).course.1.nextId_le
  | cancelled _ _ ih => exact ih

/-- Whatever happens meanwhile, the call by itself can be drained as often as the task has its turns. -/
theorem Meanwhile.watched {P K : Pairing} {u : World} {d : Executor}
    (meanwhile : Meanwhile theirs id w s states v t) (start : Watched config mine theirs id P K turns u d w s)
    (fresh : id < s.nextId ∨ t.nextId ≤ id) :
    ∃ Q L reasons u' d', Watched config mine theirs id Q L (turns + reasons.length) u' d' v t ∧
      Executor.Pauses u d reasons u' d' ∧ states = reasons.map (fun reason => some (.suspended reason)) ∧
      (t.nextId ≤ id → reasons = []) := by
  -- along the history; `Watched` is kept by all that happens, and each turn of the watched task is one drain
  -- of the call by itself
  induction meanwhile with
  | start => exact ⟨P, K, [], u, d, start, .none, rfl, fun _ => rfl⟩
  | @spawned states v t past f args given ih =>
    rcases called : t.spawn v f args with ⟨err | other, t'⟩
    · obtain rfl := spawn_error called
      rw [called] at fresh
      exact ih fresh
    · rw [called] at fresh
      obtain ⟨rfl, -⟩ := spawn_ok called
      have next : t'.nextId = t.nextId + 1 := by
        obtain ⟨_, -, rfl⟩ := spawn_called called
        rfl
      have late := past.nextId_le
      simp only at fresh ⊢
      obtain ⟨Q, L, reasons, u', d', now, pauses, told, none⟩ := ih (by omega)
      exact ⟨Q, L, reasons, u', d', now.spawned given (by omega) called, pauses, told, fun early => none (by omega)⟩
  | @stepped states v v' t t' fuel done past ran another ih =>
    have course := (Operation.step ran).course.1
    have next := course.nextId_le
    obtain ⟨Q, L, reasons, u', d', now, pauses, told, none⟩ := ih (by omega)
    have booked : ∃ trace, Books trace t' := by
      obtain ⟨trace, books⟩ := now.books
      exact ⟨_, books.course course⟩
    have quiet : t'.nextId ≤ id → reasons = [] := fun early => none (by omega)
    cases Turn.of_step ran with
    | idle empty => exact ⟨Q, L, reasons, u', d', now, pauses, by simp [pending, empty, told], quiet⟩
    | @paused task rest _ e first drained =>
      by_cases same : task.id = id
      · obtain ⟨R, u'', d'', reason, drained', why, state, after⟩ :=
          now.own_turn first same drained rfl booked
        refine ⟨R, L, reasons ++ [reason], u'', d'', ?_, pauses.snoc drained' why, ?_, ?_⟩
        · rw [List.length_append]
          exact after
        · simp [pending, first, same, told, state]
        · obtain ⟨trace, books⟩ := now.books
          have queued : id ∈ t.pending := by simp [pending, first, same]
          have old := books.pending_lt queued
          intro early
          simp only at next early
          omega
      · have behind : ∀ later ∈ [again task e], later.id = task.id ∧ later.executor = e := by simp [again]
        obtain ⟨M, after⟩ := now.others_turn first same drained behind booked
        exact ⟨Q, M, reasons, u', d', after, pauses, by simp [pending, first, same, told], quiet⟩
    | finished first drained | failed first drained =>
      have apart := another _ rfl
      simp only at apart
      obtain ⟨M, after⟩ := now.others_turn first apart drained (List.forall_mem_nil _) (by simpa using booked)
      rw [List.append_nil] at after
      exact ⟨Q, M, reasons, u', d', after, pauses, by simp [pending, first, apart, told], quiet⟩
  | @cancelled states v t past other another ih =>
    obtain ⟨Q, L, reasons, u', d', now, rest⟩ := ih fresh
    exact ⟨Q, L, reasons, u', d', now.cancelled other, rest⟩

/-- Tasks do not influence one another. If a task and the others know no iteration in common, and its
call by itself tells the place of nothing that it creates, then the task ends as the call does on an
executor of its own in the world as it was before: suspended for the same reasons, which are those that
were told after its turns, after as many turns, and with the same error or with results that are
counterparts. -/
theorem Meanwhile.undisturbed {origin : World} {early : List (Option TaskState)} {f : FunctionId} {args : List Value}
    {d : Executor} {q r : Scheduler} {v' : World} {completion : Completion} (ours : mine.Closed origin)
    (others : theirs.Closed origin)
    (apart : ∀ g cursor, mine.functions g → theirs.functions g → origin.callable g ≠ .matches cursor)
    (made : Executor.new config = .ok d) (discreet : ((d.pushCall f args).2.machine origin).Discreet mine.pairing)
    (before : Meanwhile theirs id origin { config } early w s) (given : ∀ x ∈ .function f :: args, mine.Has x)
    (spawned : s.spawn w f args = (.ok id, t)) (meanwhile : Meanwhile theirs id w t states v q)
    (ran : q.step fuel v = some (some completion, v', r)) (reported : completion.id = id) :
    ∃ reasons result, Executor.Alone origin (d.pushCall f args).2 reasons result ∧
      (∀ reasons' result', Executor.Alone origin (d.pushCall f args).2 reasons' result' →
        reasons' = reasons ∧ result' = result) ∧
      states = reasons.map (fun reason => some (.suspended reason)) ∧ completion.turns = reasons.length + 1 ∧
      ∃ Q : Pairing, mine.pairing.Within Q ∧ Q.OneToOne ∧ Likewise (Values.Twin Q) result completion.result := by
  have new : s.nextId = id := (spawn_ok spawned).1.symm
  have next : t.nextId = s.nextId + 1 := by
    obtain ⟨_, -, rfl⟩ := spawn_called spawned
    rfl
  -- until its spawn the task has no turns, and the call by itself has not begun
  obtain ⟨P, K, _, _, _, now, pauses, -, none⟩ :=
    before.watched (.new ours others apart id (d.pushCall f args).2) (.inr (Nat.le_of_eq new))
  obtain rfl := none (Nat.le_of_eq new)
  obtain ⟨rfl, rfl⟩ := pauses.eq_of_nil
  have begun := now.begun made discreet given spawned
  obtain ⟨Q, L, reasons, u, e, now, pauses, told, -⟩ := meanwhile.watched begun (.inl (by omega))
  obtain ⟨count, result, R, alone, within, oneToOne, alike⟩ := now.own_end (.of_step ran) reported
  have whole := pauses.alone alone
  rw [List.append_nil] at whole
  refine ⟨reasons, result, whole, fun _ _ other => whole.unique other, told, ?_, R, within, oneToOne, alike⟩
  simpa using count

end

/-- A script that begins to look for letters, pauses, and finds the first one. -/
private def looking : World where
  functions := #[.script ⟨"looking", 3, 3, [.function ⟨2⟩], [.call 0 2 1, .loadConst 1 0, .call 1 0 0, .move 1 0,
    .call 1 0 1, .ret 0 2]⟩, .builtin .gmatch, .builtin .pause]

private def letters : List Value := [.function ⟨1⟩, .str "a", .str "a"]

private def everything : Part := ⟨(·.index < 3), fun _ => False, fun _ => False⟩

private theorem everything_selfContained : everything.SelfContained looking := by
  refine ⟨?_, nofun, nofun, nofun, nofun⟩
  rintro ⟨i⟩ inside
  refine ⟨inside, ?_⟩
  match i, inside with
  | 0, _ => simp [looking, World.callable, Part.Admits, Part.Has, everything]
  | 1, _ => rfl
  | 2, _ => rfl

private theorem everything_apart (f : FunctionId) (cursor : Pattern.Cursor) (inside : everything.functions f) :
    looking.callable f ≠ .matches cursor := by
  intro iteration
  have admits := (everything_selfContained.functions f inside).2
  rw [iteration] at admits
  exact admits

private theorem letters_given : ∀ x ∈ .function ⟨0⟩ :: letters, everything.Has x := by
  simp [letters, Part.Has, everything]

private def fiveSlots : Executor :=
  { context := { stack := ⟨#[.nil, .nil, .nil, .nil, .nil], 0⟩, budget := Budget.new {} } }

/-- The call by itself, and the world and the executor while it pauses and when it has ended. -/
private def lookingCall : Executor := (fiveSlots.pushCall ⟨0⟩ letters).2

private def afterDrain (p : World × Executor) : World × Executor := ((p.2.drain 20 p.1).map (·.2)).getD p

private def halfway : World × Executor := afterDrain (looking, lookingCall)

private theorem afterDrain_of_told {p : World × Executor} {result : Drain}
    (told : (p.2.drain 20 p.1).bind (·.1.toOption) = some result) :
    p.2.drain 20 p.1 = some (.ok result, (afterDrain p).1, (afterDrain p).2) := by
  obtain ⟨v, after, ran⟩ := Executor.drain_of_told told
  have left : afterDrain p = (v, after) := by rw [afterDrain, ran]; rfl
  rw [left, ran]

private theorem looking_alone : Executor.Alone looking lookingCall [.yield] (.ok [.function ⟨3⟩, .str "a"]) := by
  have first : lookingCall.drain 20 looking = some (.ok .paused, halfway.1, halfway.2) :=
    afterDrain_of_told (p := (looking, lookingCall)) (by decide +kernel)
  have why : halfway.2.lastReason = some .yield := by decide +kernel
  have second : halfway.2.drain 20 halfway.1 = some (.ok .finished, (afterDrain halfway).1, (afterDrain halfway).2) :=
    afterDrain_of_told (by decide +kernel)
  have results : (afterDrain halfway).2.results = [.function ⟨3⟩, .str "a"] := by decide +kernel
  have rest := Executor.Alone.finished second
  rw [results] at rest
  exact .paused first why rest

private theorem looking_discreet (P : Pairing) : (lookingCall.machine looking).Discreet P := by
  have returned : ((lookingCall.machine looking).driven 22).activity = .returned :=
    Activity.returned_of_window? (by decide +kernel)
  have none : ((lookingCall.machine looking).driven 22).frames = [] := List.eq_nil_of_length_eq_zero (by decide +kernel)
  exact Machine.Discreet.of_quiet (n := 22) (by decide +kernel) (Machine.driven_finished returned none)

private def look (s : Scheduler) (w : World) : Scheduler := (s.spawn w ⟨0⟩ letters).2

private def afterTurn (p : World × Scheduler) : World × Scheduler := ((p.2.step 20 p.1).map (·.2)).getD p

private def before : World × Scheduler := afterTurn (looking, look { config := { stackCapacity := 5 } } looking)

private def between : World × Scheduler := afterTurn (before.1, look before.2 before.1)

private def paused : World × Scheduler := afterTurn between

private def left : Scheduler := ((look paused.2 paused.1).cancel 3).2

section

variable {w : World} {s : Scheduler} {q : World × Scheduler}

private theorem look_of_told {id : Nat} (told : (s.spawn w ⟨0⟩ letters).1.toOption = some id) :
    s.spawn w ⟨0⟩ letters = (.ok id, look s w) :=
  Prod.ext (ok_of_toOption told) rfl

private theorem afterTurn_of_told {β : Type} {tell : Option Completion → β} {told : β} (after : afterTurn (w, s) = q)
    (ran : (s.step 20 w).map (tell ·.1) = some told) : ∃ done, s.step 20 w = some (done, q.1, q.2) ∧ tell done = told := by
  obtain ⟨⟨done, v, t⟩, stepped, same⟩ := Option.map_eq_some_iff.mp ran
  rw [afterTurn, stepped] at after
  obtain rfl : (v, t) = q := after
  exact ⟨done, stepped, same⟩

private theorem afterTurn_of_none (after : afterTurn (w, s) = q) (ran : (s.step 20 w).map (·.1.isNone) = some true) :
    s.step 20 w = some (none, q.1, q.2) := by
  obtain ⟨done, stepped, none⟩ := afterTurn_of_told after ran
  rw [stepped, Option.isNone_iff_eq_none.mp none]

end

/-- The watched task is spawned when another one has paused. -/
private theorem looking_before :
    ∃ states, Meanwhile everything 2 looking { config := { stackCapacity := 5 } } states before.1 before.2 := by
  have turn : (look { config := { stackCapacity := 5 } } looking).step 20 looking = some (none, before.1, before.2) :=
    afterTurn_of_none (q := before) rfl (by decide +kernel)
  exact ⟨_, (Meanwhile.start.spawned ⟨0⟩ letters letters_given).stepped turn (by simp)⟩

/-- The one that was first ends, the watched one pauses, and a third one comes and goes. -/
private theorem looking_meanwhile :
    ∃ states, Meanwhile everything 2 before.1 (look before.2 before.1) states paused.1 left := by
  obtain ⟨done, first, reported⟩ : ∃ done, (look before.2 before.1).step 20 before.1 = some (done, between.1, between.2) ∧
      done.map (·.id) = some 1 :=
    afterTurn_of_told (q := between) rfl (by decide +kernel)
  have another : ∀ completion ∈ done, completion.id ≠ 2 := by
    rintro completion rfl same
    rw [Option.map_some, same] at reported
    cases reported
  have second : between.2.step 20 between.1 = some (none, paused.1, paused.2) :=
    afterTurn_of_none (congrArg afterTurn Prod.mk.eta) (by decide +kernel)
  have outset : Meanwhile everything 2 before.1 (look before.2 before.1) [] before.1 (look before.2 before.1) := .start
  have turns := (outset.stepped first another).stepped second (by simp)
  exact ⟨_, (turns.spawned ⟨0⟩ letters letters_given).cancelled (by decide)⟩

/-- Three tasks look for letters in the same world, and one of them is watched. By itself it would have
created the first iteration there. -/
theorem Meanwhile.undisturbed_looking : ∃ states result, ∃ completion : Completion, ∃ Q : Pairing,
    Meanwhile everything 2 before.1 (look before.2 before.1) states paused.1 left ∧
    states = [some (.suspended .yield)] ∧ completion.turns = 2 ∧ completion.result = .ok [.function ⟨4⟩, .str "a"] ∧
    result = .ok [.function ⟨3⟩, .str "a"] ∧ Executor.Alone looking lookingCall [.yield] result ∧ Q.OneToOne ∧
    Likewise (Values.Twin Q) result completion.result := by
  have made : Executor.new { stackCapacity := 5 } = .ok fiveSlots := rfl
  have closed := everything_selfContained.closed
  have apart (f : FunctionId) (cursor : Pattern.Cursor) (inside : everything.functions f) (_ : everything.functions f) :=
    everything_apart f cursor inside
  have spawned : before.2.spawn before.1 ⟨0⟩ letters = (.ok 2, look before.2 before.1) :=
    look_of_told (by decide +kernel)
  obtain ⟨v, t, done, last, told⟩ : ∃ v t done, left.step 20 paused.1 = some (done, v, t) ∧
      done.map (fun completion => (completion.id, completion.turns, completion.result.toOption)) =
        some (2, 2, some [.function ⟨4⟩, .str "a"]) :=
    ⟨_, _, afterTurn_of_told rfl (by decide +kernel)⟩
  obtain ⟨completion, rfl, told⟩ := Option.map_eq_some_iff.mp told
  obtain ⟨id, turns, answered⟩ : completion.id = 2 ∧ completion.turns = 2 ∧
      completion.result.toOption = some [.function ⟨4⟩, .str "a"] := by
    simpa only [Option.map_some, Option.some.injEq, Prod.mk.injEq] using told
  have result := ok_of_toOption answered
  obtain ⟨_, early⟩ := looking_before
  obtain ⟨states, meanwhile⟩ := looking_meanwhile
  obtain ⟨reasons, _, -, unique, reached, -, Q, -, oneToOne, alike⟩ := Meanwhile.undisturbed closed closed apart made
    (looking_discreet _) early letters_given spawned meanwhile last id
  obtain ⟨rfl, rfl⟩ := unique _ _ looking_alone
  exact ⟨states, _, completion, Q, meanwhile, reached, turns, result, rfl, looking_alone, oneToOne, alike⟩

end Scheduler

end CoopScript
