import CoopScript.Proofs.ClearRegisters
import CoopScript.Proofs.CounterpartRuns
import CoopScript.Proofs.ExecutorStates
import CoopScript.Proofs.WorldChanges

/-! Executors that are used again. What an executor has been through leaves a register stack that is
clear above its cursor, a world that has only been added to, and a count that nobody looks at. So
the next call, and each of its drains, comes to what it comes to on a new executor: to the very same
in the same world, and up to the places of functions in the world from which the executor set out. -/

namespace CoopScript

/-- Registers that are clear above the cursor are all the same once they have been emptied. -/
theorem RegisterStack.emptied_eq {s : RegisterStack} (clear : s.Clear) :
    s.emptied = ⟨Array.replicate s.capacity .nil, 0⟩ := by
  have nothing := (emptied_clear s clear).empty
  have size : s.emptied.slots.size = s.capacity := clear_capacity s 0 s.top
  have slots : s.emptied.slots = Array.replicate s.capacity .nil := by
    apply Array.ext
    · simpa using size
    · intro i here there
      have held := nothing i (Nat.zero_le _)
      simp only [get, Array.getD_eq_getD_getElem?, Array.getElem?_eq_getElem here] at held
      simpa using held
  exact congrArg (RegisterStack.mk · 0) slots

/-- What is seen of an executor and its world after a drain. The reason is that of the suspension,
if there was one. -/
structure Sighting where
  outcome : Except Failure Drain
  reason : Option SuspendReason
  frames : List Frame
  results : List Value
  world : World

/-- The same outcome for the same reason, with counterparts for everything else. -/
structure Sighting.Twin (P : Pairing) (s t : Sighting) : Prop where
  outcome : t.outcome = s.outcome
  reason : t.reason = s.reason
  frames : Frames.Twin P s.frames t.frames
  results : Values.Twin P s.results t.results
  world : s.world.Twin P t.world

/-- As many sightings that are counterparts, one after another, with functions that come into being
on the way. -/
inductive Sightings.Twin : Pairing → List Sighting → List Sighting → Prop where
  | nil {P : Pairing} : Twin P [] []
  | cons {P Q : Pairing} {s t : Sighting} {ss ts : List Sighting} (within : P.Within Q) (seen : s.Twin Q t)
      (rest : Twin Q ss ts) : Twin P (s :: ss) (t :: ts)

theorem Sightings.Twin.widen {P Q : Pairing} {ss ts : List Sighting} (within : P.Within Q) (twins : Twin Q ss ts) :
    Twin P ss ts := by
  cases twins with
  | nil => exact .nil
  | cons further seen rest => exact .cons (within.trans further) seen rest

namespace Executor

def seen (e : Executor) (w : World) (outcome : Except Failure Drain) : Sighting :=
  { outcome
    reason := match outcome with | .ok .paused => e.lastReason | _ => none
    frames := e.callStack
    results := e.results
    world := w }

/-- What is seen from drain to drain, each with its fuel, as long as they come to an end. -/
def sightings : List Nat → World → Executor → List Sighting
  | [], _, _ => []
  | fuel :: fuels, w, e =>
    match drain fuel w e with
    | none => []
    | some (outcome, v, after) => after.seen v outcome :: sightings fuels v after

variable {u w v : World} {d e : Executor} {P : Pairing}

theorem sightings_of_idle (idle : e.callStack = []) (fuels : List Nat) (w : World) :
    sightings fuels w e = fuels.map fun _ => e.seen w (.error (.protocol .noPendingCall)) := by
  induction fuels with
  | nil => rfl
  | cons fuel fuels ih => simp only [sightings, drain_of_idle idle, ih, List.map_cons]

theorem sightings_of_run (pending : e.callStack ≠ []) {fuel : Nat} {halt : Halt} {last : Machine}
    (ran : (e.machine w).run fuel = some (halt, last)) (fuels : List Nat) :
    sightings (fuel :: fuels) w e = (e.settled halt last).2.seen last.core.world (e.settled halt last).1 ::
      sightings fuels last.core.world (e.settled halt last).2 := by
  simp only [sightings, drain_of_run pending ran]

theorem sightings_of_unended (pending : e.callStack ≠ []) {fuel : Nat} (unended : (e.machine w).run fuel = none)
    (fuels : List Nat) : sightings (fuel :: fuels) w e = [] := by
  simp [sightings, drain, pending, unended]

theorem seen_congr {outcome : Except Failure Drain} (registers : e.context.stack = d.context.stack)
    (waiting : e.callStack = d.callStack) (state : e.state = d.state)
    (reason : outcome = .ok .paused → e.lastReason = d.lastReason) : e.seen w outcome = d.seen w outcome := by
  rcases outcome with _ | (_ | _)
  · simp only [seen, results, registers, waiting, state]
  · simp only [seen, results, registers, waiting, state, reason rfl]
  · simp only [seen, results, registers, waiting, state]

theorem sightings_of_idle_congr (idle : d.callStack = []) (registers : e.context.stack = d.context.stack)
    (waiting : e.callStack = d.callStack) (state : e.state = d.state) (fuels : List Nat) :
    sightings fuels w e = sightings fuels w d := by
  have alike : e.seen w (.error (.protocol .noPendingCall)) = d.seen w (.error (.protocol .noPendingCall)) := by
    apply seen_congr registers waiting state
    simp
  rw [sightings_of_idle idle, sightings_of_idle (waiting.trans idle), alike]

/-- Where the machines of two executors are the same but for the count, so is all that is seen. -/
theorem sightings_heedless (same : (d.machine w).SameButCount (e.machine w)) (state : e.state = d.state)
    (fuels : List Nat) : sightings fuels w e = sightings fuels w d := by
  induction fuels generalizing w d e with
  | nil => rfl
  | cons fuel fuels ih =>
    obtain ⟨-, registers, waiting⟩ :
        w = w ∧ e.context.stack = d.context.stack ∧ e.callStack = d.callStack := same.others
    by_cases idle : d.callStack = []
    · exact sightings_of_idle_congr idle registers waiting state _
    have pending : e.callStack ≠ [] := by rwa [waiting]
    have abreast := Machine.run_abreast (fun _ _ => Machine.step_heedless) same fuel
    generalize ranHere : (d.machine w).run fuel = here at abreast
    generalize ranThere : (e.machine w).run fuel = there at abreast
    cases abreast with
    | unended => rw [sightings_of_unended idle ranHere, sightings_of_unended pending ranThere]
    | @rested halt m n related =>
      rw [sightings_of_run idle ranHere, sightings_of_run pending ranThere]
      obtain ⟨world, registers, waiting⟩ := related.others
      rw [world]
      cases halt with
      | finished =>
        refine congr (congrArg List.cons (seen_congr registers rfl rfl ?_)) ?_
        · simp [settled]
        · apply sightings_of_idle_congr
          case registers => exact registers
          all_goals rfl
      | failed err =>
        have emptied := congrArg RegisterStack.emptied registers
        refine congr (congrArg List.cons (seen_congr emptied rfl rfl ?_)) ?_
        · simp [settled]
        · apply sightings_of_idle_congr
          case registers => exact emptied
          all_goals rfl
      | paused reason =>
        have resumed : ((d.settled (.paused reason) m).2.machine m.core.world).SameButCount
            ((e.settled (.paused reason) n).2.machine n.core.world) := related.restarted
        rw [world] at resumed
        refine congr (congrArg List.cons (seen_congr registers waiting state ?_)) (ih resumed state)
        exact fun _ => rfl

/-- Counterparts on the register stacks and among the frames, and budgets that allow as much. -/
structure Twin (P : Pairing) (d e : Executor) : Prop where
  registers : d.context.stack.Twin P e.context.stack
  waiting : Frames.Twin P d.callStack e.callStack
  budget : d.context.budget.refill.SameButCount e.context.budget.refill

namespace Twin

theorem mono {Q : Pairing} (within : P.Within Q) (twin : d.Twin P e) : d.Twin Q e :=
  ⟨twin.registers.mono within, twin.waiting.mono within, twin.budget⟩

theorem machine (twin : d.Twin P e) (worlds : u.Twin P w) : (d.machine u).Twin P (e.machine w) :=
  ⟨⟨worlds, twin.registers, twin.budget, rfl⟩, .returned, .nil, twin.waiting⟩

theorem of_machine (twin : (d.machine u).Twin P (e.machine w)) : d.Twin P e :=
  ⟨twin.core.stack, twin.pending, twin.core.budget⟩

theorem idle_iff (twin : d.Twin P e) : d.callStack = [] ↔ e.callStack = [] := by
  have waiting := twin.waiting
  constructor
  · intro none
    rw [none] at waiting
    exact List.forall₂_nil_left_iff.mp waiting
  · intro none
    rw [none] at waiting
    exact List.forall₂_nil_right_iff.mp waiting

theorem settled {m n : Machine} (cores : m.core.Twin P n.core) (saved : Frames.Twin P m.pending n.pending) (halt : Halt)
    (d e : Executor) : (d.settled halt m).2.Twin P (e.settled halt n).2 := by
  have budget : m.core.context.budget.refill.SameButCount n.core.context.budget.refill := by
    obtain ⟨count, same⟩ := cores.budget
    exact ⟨count, congrArg Budget.refill same⟩
  cases halt with
  | finished => exact ⟨cores.stack, .nil, budget⟩
  | paused reason => exact ⟨cores.stack, saved, budget⟩
  | failed err => exact ⟨cores.stack.emptied, .nil, budget⟩

end Twin

theorem seen_twin {outcome : Except Failure Drain} (worlds : w.Twin P v) (twin : d.Twin P e) (state : e.state = d.state)
    (reason : outcome = .ok .paused → e.lastReason = d.lastReason) : (d.seen w outcome).Twin P (e.seen v outcome) := by
  refine ⟨rfl, ?_, twin.waiting, ?_, worlds⟩
  · rcases outcome with _ | (_ | _)
    · rfl
    · exact reason rfl
    · rfl
  · simp only [seen, results, state]
    split
    · exact Window.values_twin _ twin.registers
    · exact .nil

theorem sightings_of_idle_twin (idle : d.callStack = []) (worlds : w.Twin P v) (twin : d.Twin P e)
    (state : e.state = d.state) (fuels : List Nat) : Sightings.Twin P (sightings fuels w d) (sightings fuels v e) := by
  have alike : (d.seen w (.error (.protocol .noPendingCall))).Twin P
      (e.seen v (.error (.protocol .noPendingCall))) := by
    apply seen_twin worlds twin state
    simp
  rw [sightings_of_idle idle, sightings_of_idle (twin.idle_iff.mp idle)]
  induction fuels with
  | nil => exact .nil
  | cons _ fuels ih => exact .cons (.refl P) alike ih

/-- Where the machines of two executors are counterparts, so is all that is seen. -/
theorem sightings_twin (alongside : (d.machine w).Alongside P (e.machine v)) (state : e.state = d.state)
    (fuels : List Nat) : Sightings.Twin P (sightings fuels w d) (sightings fuels v e) := by
  induction fuels generalizing w v d e P with
  | nil => exact .nil
  | cons fuel fuels ih =>
    obtain ⟨Q, within, twins⟩ := alongside.2
    have twin := Twin.of_machine twins
    by_cases idle : d.callStack = []
    · apply Sightings.Twin.widen within
      exact sightings_of_idle_twin idle twins.core.world twin state _
    have pending : e.callStack ≠ [] := fun none => idle (twin.idle_iff.mpr none)
    have abreast := Machine.Alongside.run alongside fuel
    generalize ranHere : (d.machine w).run fuel = here at abreast
    generalize ranThere : (e.machine v).run fuel = there at abreast
    cases abreast with
    | unended =>
      rw [sightings_of_unended idle ranHere, sightings_of_unended pending ranThere]
      exact .nil
    | @rested halt m n related =>
      rw [sightings_of_run idle ranHere, sightings_of_run pending ranThere]
      obtain ⟨⟨R, within, cores, saved⟩, discreet⟩ := related
      have left := Twin.settled cores saved halt d e
      cases halt with
      | finished => exact .cons within (seen_twin cores.world left rfl nofun) (sightings_of_idle_twin rfl cores.world left rfl _)
      | failed err => exact .cons within (seen_twin cores.world left rfl nofun) (sightings_of_idle_twin rfl cores.world left rfl _)
      | paused reason =>
        have resumed : ((d.settled (.paused reason) m).2.machine m.core.world).Alongside R
            ((e.settled (.paused reason) n).2.machine n.core.world) :=
          .restarted within cores saved (discreet reason rfl)
        exact .cons within (seen_twin cores.world left state fun _ => rfl) (ih resumed state)

theorem new_resting {config : EngineConfig} (made : Executor.new config = .ok e) : e.callStack = [] := by
  simp only [Executor.new] at made
  cases placed : RegisterStack.new config.stackCapacity <;> rw [placed] at made <;> cases made
  rfl

/-- What one executor and its world come to by calls, drains and taken results, where the functions
at work are verified or of the library. -/
inductive Past (config : EngineConfig) (origin : World) : World → Executor → Prop where
  | fresh {e : Executor} (made : Executor.new config = .ok e) : Past config origin origin e
  | pushed {w : World} {e : Executor} (before : Past config origin w e) (f : FunctionId) (args : List Value) :
      Past config origin w (e.pushCall f args).2
  | drained {w v : World} {e after : Executor} {fuel : Nat} {result : Except Failure Drain}
      (before : Past config origin w e) (involved : ∀ c ∈ (e.machine w).involved fuel, c.Shipped)
      (ran : drain fuel w e = some (result, v, after)) : Past config origin v after
  | taken {w : World} {e : Executor} (before : Past config origin w e) : Past config origin w e.takeResults.2

/-- What a configuration fixes for good. -/
structure Configured (config : EngineConfig) (e : Executor) : Prop where
  capacity : e.context.stack.capacity = config.stackCapacity
  slice : e.context.budget.slice = config.preemption.budget
  mark : e.context.budget.lowWaterMark = config.preemption.lowWaterMark

variable {config : EngineConfig} {origin : World} {f : FunctionId} {args : List Value}

namespace Configured

theorem new (made : Executor.new config = .ok e) : e.Configured config := by
  simp only [Executor.new, RegisterStack.new] at made
  split at made
  · cases made
  · cases made
    exact ⟨by simp [RegisterStack.capacity], rfl, rfl⟩

theorem cleared (configured : e.Configured config) : e.cleared.Configured config :=
  ⟨(RegisterStack.clear_capacity e.context.stack 0 e.context.stack.top).trans configured.capacity, configured.slice,
    configured.mark⟩

theorem pushCall (configured : e.Configured config) (f : FunctionId) (args : List Value) :
    (e.pushCall f args).2.Configured config := by
  by_cases resting : e.callStack = []
  · rw [pushCall_of_resting resting]
    split
    · exact configured.cleared
    · refine ⟨?_, configured.slice, configured.mark⟩
      exact (e.context.stack.emptied.write_sameShape 0 args).capacity.trans configured.cleared.capacity
  · rw [pushCall_of_pending resting]
    exact configured

theorem takeResults (configured : e.Configured config) : e.takeResults.2.Configured config := by
  simp only [Executor.takeResults]
  split
  · exact ⟨configured.cleared.capacity, configured.slice, configured.mark⟩
  · exact configured

theorem drain (configured : e.Configured config) {fuel : Nat} {result : Except Failure Drain} {after : Executor}
    (ran : Executor.drain fuel w e = some (result, v, after)) : after.Configured config := by
  rcases of_drain ran with ⟨_, _, rfl⟩ | ⟨halt, last, rested, _, _, rfl⟩
  · exact configured
  · have sustains := Machine.run_sustains rested
    have keeps := Machine.run_keeps rested
    have kept : Configured config { e with context := last.core.context } :=
      ⟨sustains.capacity.trans configured.capacity, keeps.slice.trans configured.slice,
        keeps.mark.trans configured.mark⟩
    cases halt with
    | finished | paused _ => exact ⟨kept.capacity, kept.slice, kept.mark⟩
    | failed _ => exact ⟨kept.cleared.capacity, kept.slice, kept.mark⟩

end Configured

namespace Past

theorem reachable (past : Past config origin w e) : Reachable w e := by
  induction past with
  | fresh made => exact .fresh made
  | pushed _ f args ih => exact ih.pushed f args
  | drained _ involved ran ih => exact ih.drained involved ran
  | taken _ ih => exact ih.taken

theorem configured (past : Past config origin w e) : e.Configured config := by
  induction past with
  | fresh made => exact .new made
  | pushed _ f args ih => exact ih.pushCall f args
  | drained _ _ ran ih => exact ih.drain ran
  | taken _ ih => exact ih.takeResults

theorem precedes (past : Past config origin w e) : origin.Precedes w := by
  induction past with
  | fresh => exact .of_same rfl rfl rfl
  | pushed _ _ _ ih => exact ih
  | taken _ ih => exact ih
  | drained _ _ ran ih =>
    rcases of_drain ran with ⟨_, rfl, _⟩ | ⟨halt, last, rested, rfl, _⟩
    · exact ih
    · exact ih.trans (Machine.run_precedes rested)

end Past

/-- Two executors that rest answer the same call alike, if they are of one configuration and their
registers are clear. -/
theorem pushCall_alike (here : d.Configured config) (there : e.Configured config) (clear : d.context.stack.Clear)
    (clear' : e.context.stack.Clear) (resting : d.callStack = []) (resting' : e.callStack = []) (f : FunctionId)
    (args : List Value) : (e.pushCall f args).1 = (d.pushCall f args).1 ∧
      ∀ u fuels, sightings fuels u (e.pushCall f args).2 = sightings fuels u (d.pushCall f args).2 := by
  have capacity := there.capacity.trans here.capacity.symm
  have emptied : e.context.stack.emptied = d.context.stack.emptied := by
    rw [RegisterStack.emptied_eq clear, RegisterStack.emptied_eq clear', capacity]
  rw [pushCall_of_resting resting, pushCall_of_resting resting', capacity]
  split
  · refine ⟨rfl, ?_⟩
    intro u fuels
    -- one of them may still count as finished, but there is nothing left for it to show
    change sightings fuels u e.cleared = sightings fuels u d.cleared
    rw [sightings_of_idle (e := d.cleared) resting, sightings_of_idle (e := e.cleared) resting']
    simp only [seen, results_cleared]
    simp only [cleared, resting, resting']
  · refine ⟨rfl, ?_⟩
    intro u fuels
    apply sightings_heedless
    case state => rfl
    case same =>
      have budgets : d.context.budget.refill.SameButCount e.context.budget.refill :=
        .refill (there.slice.trans here.slice.symm) (there.mark.trans here.mark.symm)
      obtain ⟨count, refilled⟩ := budgets
      refine ⟨_, ⟨count, rfl⟩, ?_⟩
      simp only [machine, refilled, emptied]
      rfl

/-- A call of the same function with the same arguments starts from counterparts in any two worlds
that are. -/
theorem pushCall_twin (clear : d.context.stack.Clear) (resting : d.callStack = []) (worlds : w.Twin P v)
    (function : P.functions f f) (values : Values.Twin P args args) :
    ((d.pushCall f args).2.machine w).Twin P ((d.pushCall f args).2.machine v) := by
  have budget (b : Budget) : b.SameButCount b := ⟨b.preemptions, rfl⟩
  have emptied : d.context.stack.emptied.Twin P d.context.stack.emptied := by
    refine ⟨rfl, rfl, ?_⟩
    intro i
    rw [(RegisterStack.emptied_clear _ clear).empty i (Nat.zero_le _)]
    exact .nil
  rw [pushCall_of_resting resting]
  split
  · refine ⟨⟨worlds, emptied, budget _, rfl⟩, .returned, .nil, ?_⟩
    change Frames.Twin P d.callStack d.callStack
    rw [resting]
    exact .nil
  · refine ⟨⟨worlds, (emptied.write 0 values).withTop _, budget _, rfl⟩, .returned, .nil, ?_⟩
    exact .cons ⟨function, rfl, .none⟩ .nil

end Executor

/-- Some of the functions and objects of a world. -/
structure Part where
  functions : FunctionId → Prop
  tables : TableId → Prop
  objects : UserdataId → Prop

namespace Part

/-- The value is none of the world's functions and objects, or one of the part. -/
def Has (part : Part) : Value → Prop
  | .function f => part.functions f
  | .table t => part.tables t
  | .userdata u => part.objects u
  | _ => True

/-- A script that refers to the part only, or a function of the library that works on values and
nothing else. -/
def Admits (part : Part) : Callable → Prop
  | .script p => ∀ v ∈ p.constants, part.Has v
  | .builtin b => b.isSelfContained = true
  | _ => False

/-- Whatever the functions of the part can get at is in the part, and nothing that they look at can
change: none of them is an iteration, and none works on handles. -/
structure SelfContained (part : Part) (w : World) : Prop where
  functions : ∀ f, part.functions f → f.index < w.functions.size ∧ part.Admits (w.callable f)
  entries : ∀ t key, part.tables t → part.Has ((w.table t).find key)
  handlers : ∀ t m, part.tables t → (w.table t).metatable = some m → part.tables m
  objects : ∀ u, part.objects u → u.index < w.objects.size
  objectHandlers : ∀ u m, part.objects u → (w.userdata u).metatable = some m → part.tables m

/-- Each function of the part stands for itself. -/
def pairing (part : Part) : Pairing := ⟨fun f g => part.functions f ∧ g = f, part.tables, part.objects⟩

variable {part : Part} {w v : World}

theorem Has.twin {x : Value} (has : part.Has x) : x.Twin part.pairing x := by
  cases x with
  | function f => exact .function ⟨has, rfl⟩
  | _ => exact .same has

/-- A part that is self-contained looks the same after anything that running code has changed. -/
theorem SelfContained.twin (selfContained : part.SelfContained w) (precedes : w.Precedes v) :
    w.Twin part.pairing v := by
  have kept (f : FunctionId) (known : part.functions f) : v.callable f = w.callable f := by
    obtain ⟨inside, admits⟩ := selfContained.functions f known
    refine precedes.kept f inside ?_
    intro cursor iteration
    rw [iteration] at admits
    exact admits
  have tables (t : TableId) : v.table t = w.table t := by rw [World.table, World.table, precedes.tables]
  refine
    { oneToOne := ⟨?_, ?_⟩
      tables := fun t _ => tables t
      entries := fun t key known => (selfContained.entries t key known).twin
      handlers := selfContained.handlers
      objects := fun u known => precedes.metatable u (selfContained.objects u known)
      objectHandlers := selfContained.objectHandlers
      functions := ?functions
      here := ?here
      there := ?there }
  · intro f g h first second
    exact first.2.trans second.2.symm
  · intro f g h first second
    exact first.2.symm.trans second.2
  case functions =>
    intro f g paired
    obtain ⟨known, rfl⟩ := paired
    have admits := (selfContained.functions g known).2
    rw [kept g known]
    generalize w.callable g = c at admits
    cases c with
    | script p => exact .script fun x member => (admits x member).twin
    | builtin b => exact .builtin admits
    | «matches» _ | lines _ _ | host _ => cases admits
  case here =>
    intro f g paired
    exact (selfContained.functions f paired.1).1
  case there =>
    intro f g paired
    obtain ⟨known, rfl⟩ := paired
    exact Nat.lt_of_lt_of_le (selfContained.functions g known).1 precedes.functions

end Part

namespace Executor

/-- An executor forgets its past. Where nothing is pending, the next call is answered as by a new
executor, and whatever the function does, in the same world the same is seen from drain to drain. If
the function gets at nothing but a part of the world that cannot change, and does not tell the place
of what it has created, the new executor may even be in the world the old one set out from: then
what is seen of both are counterparts. -/
theorem Past.forgotten {config : EngineConfig} {origin w : World} {d e : Executor} (past : Past config origin w e)
    (resting : e.callStack = []) (made : Executor.new config = .ok d) (f : FunctionId) (args : List Value) :
    (e.pushCall f args).1 = (d.pushCall f args).1 ∧
      (∀ u fuels, sightings fuels u (e.pushCall f args).2 = sightings fuels u (d.pushCall f args).2) ∧
      ∀ part : Part, part.SelfContained origin → part.functions f → (∀ v ∈ args, part.Has v) →
        ((d.pushCall f args).2.machine origin).Discreet part.pairing → ∀ fuels,
          Sightings.Twin part.pairing (sightings fuels origin (d.pushCall f args).2)
            (sightings fuels w (e.pushCall f args).2) := by
  have idle : d.callStack = [] := new_resting made
  have clear : d.context.stack.Clear := (Sound.new (w := origin) made).clear
  have clear' : e.context.stack.Clear := past.reachable.sound.clear
  obtain ⟨answered, same⟩ := pushCall_alike (.new made) past.configured clear clear' idle resting f args
  refine ⟨answered, same, ?_⟩
  intro part selfContained known given discreet fuels
  -- in the world as it is now both show the same, so it remains to compare the two worlds
  rw [same]
  have values : Values.Twin part.pairing args args := List.forall₂_same.mpr fun v member => (given v member).twin
  have twin := pushCall_twin clear idle (selfContained.twin past.precedes) ⟨known, rfl⟩ values
  exact sightings_twin ⟨discreet, part.pairing, .refl _, twin⟩ rfl fuels

private def calling : World :=
  { functions := #[.script ⟨"calling", 3, 3, [], [.call 0 2 1, .ret 0 1]⟩, .builtin .gmatch] }

private def unspent : Executor :=
  { context := { stack := ⟨#[.nil, .nil, .nil, .nil], 0⟩, budget := Budget.new {} } }

private def searching : List Value := [.function ⟨1⟩, .str "a", .str "a"]

/-- A call has left an iteration behind. -/
private def called : World := (Builtin.gmatch.invoke searching.tail calling).2

private def spent : Executor :=
  { context := { stack := ⟨#[.function ⟨2⟩, .nil, .nil, .nil], 1⟩, budget := ⟨10000, some 10000, 0, 0⟩ }
    state := .finished }

private theorem past_spent : Past { stackCapacity := 4 } calling called spent := by
  have shipped : calling.Shipped := by decide
  have made : Executor.new { stackCapacity := 4 } = .ok unspent := rfl
  have ran : drain 9 calling (unspent.pushCall ⟨0⟩ searching).2 = some (.ok .finished, called, spent) := by cbv
  exact .drained (.pushed (.fresh made) ⟨0⟩ searching) (involved_of_shipped shipped _ 9) ran

private theorem searching_discreet (P : Pairing) : ((unspent.pushCall ⟨0⟩ searching).2.machine calling).Discreet P := by
  have returned : (((unspent.pushCall ⟨0⟩ searching).2.machine calling).driven 8).activity = .returned :=
    Activity.returned_of_window? (by decide +kernel)
  have none : (((unspent.pushCall ⟨0⟩ searching).2.machine calling).driven 8).frames = [] :=
    List.eq_nil_of_length_eq_zero (by decide +kernel)
  exact Machine.Discreet.of_quiet (n := 8) (by decide +kernel) (Machine.driven_finished returned none)

/-- A function that searches gives an iteration, which stands in another place where there has been
one before. -/
theorem Past.forgotten_calling : ∃ s t, sightings [9] calling (unspent.pushCall ⟨0⟩ searching).2 = [s] ∧
    sightings [9] called (spent.pushCall ⟨0⟩ searching).2 = [t] ∧ s.results = [.function ⟨2⟩] ∧
    t.results = [.function ⟨3⟩] ∧ ∃ Q : Pairing, Q.OneToOne ∧ s.Twin Q t := by
  have made : Executor.new { stackCapacity := 4 } = .ok unspent := rfl
  let part : Part := ⟨(·.index < 2), fun _ => False, fun _ => False⟩
  have selfContained : part.SelfContained calling := by
    refine ⟨?_, nofun, nofun, nofun, nofun⟩
    rintro ⟨i⟩ inside
    refine ⟨inside, ?_⟩
    match i, inside with
    | 0, _ => exact List.forall_mem_nil _
    | 1, _ => rfl
  have has : ∀ v ∈ searching, part.Has v := by simp [searching, Part.Has, part]
  obtain ⟨s, here⟩ : ∃ s, sightings [9] calling (unspent.pushCall ⟨0⟩ searching).2 = [s] ∧
    s.results = [.function ⟨2⟩] := ⟨_, by cbv, rfl⟩
  obtain ⟨t, there⟩ : ∃ t, sightings [9] called (spent.pushCall ⟨0⟩ searching).2 = [t] ∧
    t.results = [.function ⟨3⟩] := ⟨_, by cbv, rfl⟩
  have alike := (past_spent.forgotten rfl made ⟨0⟩ searching).2.2 part selfContained (by decide) has
  have twins := alike (searching_discreet _) [9]
  rw [here.1, there.1] at twins
  cases twins with
  | cons within seen rest => exact ⟨s, t, here.1, there.1, here.2, there.2, _, seen.world.oneToOne, seen⟩

end Executor

end CoopScript
