import CoopScript.Executor
import CoopScript.Proofs.StepEffects

/-! Runs of a machine, one step at a time. What a run shows is collected from the machines it
passes through, and a run that is suspended goes on from the frames it left pending, so that a
call can be followed through all of its drains. -/

namespace CoopScript

/-- A call with the arguments it is made with. -/
structure Call where
  function : FunctionId
  args : List Value

namespace Activity

def function? : Activity → Option FunctionId
  | .enter f _ | .resume f _ _ | .running f _ _ => some f
  | .returned | .dispatch _ _ => none

def window? : Activity → Option Window
  | .returned => none
  | .dispatch _ w | .enter _ w | .resume _ w _ | .running _ w _ => some w

theorem returned_of_window? {a : Activity} (none : a.window? = none) : a = .returned := by
  cases a with
  | returned => rfl
  | dispatch _ _ | enter _ _ | resume _ _ _ | running _ _ _ => cases none

theorem step_enter (f : FunctionId) (w : Window) (c : Core) :
    (Activity.enter f w).step c = (c.world.callable f).invoke f w c := rfl

theorem step_resume (f : FunctionId) (w : Window) (s : Saved) (c : Core) :
    (Activity.resume f w s).step c = (c.world.callable f).resume f w s c := rfl

theorem step_running {f : FunctionId} {c : Core} {p : Proto} (script : c.world.callable f = .script p) (w : Window)
    (pc : Nat) : (Activity.running f w pc).step c = p.step f w pc c := by
  simp only [step, Core.bind_apply, Core.getWorld_apply, script]

end Activity

namespace Machine

/-- The frames that wait, in the order they go on. -/
def frames (m : Machine) : List Frame := m.callers ++ m.pending

/-- What is seen at the first `n` machines of a run. -/
def observed {α : Type} (look : Machine → List α) : Nat → Machine → List α
  | 0, _ => []
  | n + 1, m =>
    match m.step with
    | .inl next => look m ++ observed look n next
    | .inr _ => look m

/-- The call that is about to begin. -/
def call (m : Machine) : List Call :=
  match m.activity with
  | .enter f w => [⟨f, w.values m.core.context.stack⟩]
  | _ => []

def calls (n : Nat) (m : Machine) : List Call := m.observed call n

/-- What is at work in the first steps of a run. -/
def involved (n : Nat) (m : Machine) : List Callable :=
  m.observed (fun m => (m.activity.function?.map m.core.world.callable).toList) n

/-- Where the outcome of an activity leaves the machine. -/
def after (m : Machine) : Except Failure Move × Core → Machine ⊕ (Halt × Machine)
  | (.ok (.go activity), core) => .inl { m with core, activity }
  | (.ok (.call frame r w), core) =>
    .inl { m with core, activity := .dispatch r w, callers := frame :: m.callers }
  | (.ok (.suspend reason frame), core) => .inr (({ m with core }).suspend reason frame)
  | (.error e, core) => .inr (({ m with core }).fail e)

theorem step_working {m : Machine} {a : Activity} (active : m.activity = a) (working : a ≠ .returned) :
    m.step = m.after (a.step m.core) := by
  obtain ⟨core, activity, callers, pending⟩ := m
  simp only at active
  subst active
  cases activity with
  | returned => exact absurd rfl working
  | dispatch _ _ | enter _ _ | resume _ _ _ | running _ _ _ =>
    simp only [step, ExceptT.run]
    generalize Activity.step _ core = outcome
    obtain ⟨result, after⟩ := outcome
    rcases result with _ | (_ | _ | _) <;> rfl

/-- What a return can come to. The first frame that waits goes on, but one from an earlier drain
only if its function can be resumed. -/
inductive Return (m : Machine) : Machine ⊕ (Halt × Machine) → Prop where
  | finished (none : m.frames = []) : Return m (.inr (.finished, m))
  | refused {frame : Frame} {rest : List Frame} (waiting : m.frames = frame :: rest)
      (started : frame.state.isSome = true) (unable : (m.core.world.callable frame.function).isResumable = false)
      (e : Failure) : Return m (.inr (m.fail e))
  | taken {frame : Frame} {callers pending : List Frame} (waiting : m.frames = frame :: (callers ++ pending))
      (fewer : callers ⊆ m.callers)
      (able : frame ∈ m.callers ∨ frame.state = none ∨ (m.core.world.callable frame.function).isResumable = true) :
      Return m (.inl { m with activity := frame.activity, callers, pending })

theorem Return.of_step {m : Machine} (returned : m.activity = .returned) : m.Return m.step := by
  obtain ⟨core, activity, callers, pending⟩ := m
  simp only at returned
  subst returned
  cases callers with
  | cons frame callers => exact .taken rfl (List.subset_cons_self _ _) (.inl List.mem_cons_self)
  | nil =>
    cases pending with
    | nil => exact .finished rfl
    | cons frame pending =>
      simp only [step]
      split
      · next refused =>
        simp only [Bool.and_eq_true, Bool.not_eq_true'] at refused
        exact .refused rfl refused.1 refused.2 _
      · next able =>
        refine .taken rfl (List.nil_subset _) (.inr ?_)
        cases started : frame.state with
        | none => exact .inl rfl
        | some saved =>
          rw [started] at able
          simpa using able

theorem step_finished {m : Machine} (returned : m.activity = .returned) (none : m.frames = []) :
    m.step = .inr (.finished, m) := by
  have stepped := Return.of_step returned
  generalize m.step = result at stepped
  cases stepped with
  | finished => rfl
  | refused waiting | taken waiting => cases none.symm.trans waiting

theorem step_returned {m : Machine} {frame : Frame} {rest : List Frame}
    (returned : m.activity = .returned) (waiting : m.frames = frame :: rest)
    (resumable : frame.state = none ∨ (m.core.world.callable frame.function).isResumable = true) :
    ∃ callers pending, callers ++ pending = rest ∧
      m.step = .inl { m with activity := frame.activity, callers, pending } := by
  have stepped := Return.of_step returned
  generalize m.step = result at stepped
  cases stepped with
  | finished none => cases none.symm.trans waiting
  | refused waits started unable =>
    obtain ⟨rfl, _⟩ := List.cons.inj (waiting.symm.trans waits)
    rcases resumable with fresh | resumable
    · rw [fresh] at started
      cases started
    · rw [resumable] at unable
      cases unable
  | taken waits =>
    obtain ⟨rfl, rfl⟩ := List.cons.inj (waiting.symm.trans waits)
    exact ⟨_, _, rfl, rfl⟩

/-- What one step can come to: the first frame that waits goes on, or the activity does, or it
makes a call and waits. -/
inductive Step (m : Machine) : Machine → Prop where
  | returned {frame : Frame} {callers pending : List Frame} (returned : m.activity = .returned)
      (waiting : m.frames = frame :: (callers ++ pending)) (fewer : callers ⊆ m.callers)
      (able : frame ∈ m.callers ∨ frame.state = none ∨ (m.core.world.callable frame.function).isResumable = true) :
      Step m { m with activity := frame.activity, callers, pending }
  | went {a : Activity} {core : Core} (working : m.activity ≠ .returned)
      (stepped : m.activity.step m.core = (.ok (.go a), core)) : Step m { m with core, activity := a }
  | called {frame : Frame} {r : Request} {w : Window} {core : Core} (working : m.activity ≠ .returned)
      (stepped : m.activity.step m.core = (.ok (.call frame r w), core)) :
      Step m { m with core, activity := .dispatch r w, callers := frame :: m.callers }

theorem Step.of_step {m next : Machine} (moved : m.step = .inl next) : m.Step next := by
  by_cases returned : m.activity = .returned
  · have stepped := Return.of_step returned
    rw [moved] at stepped
    cases stepped with
    | taken waiting fewer able => exact .returned returned waiting fewer able
  · rw [step_working rfl returned] at moved
    rcases stepped : m.activity.step m.core with ⟨result, core⟩
    rw [stepped] at moved
    rcases result with _ | (_ | _ | _) <;> cases moved
    · exact .went returned stepped
    · exact .called returned stepped

/-- How a step can end a run, with what the watchers log of it: nothing waits, or the frame that
waits cannot go on, or the activity fails or is suspended, for which there has to be a drain. -/
inductive Halted (m : Machine) : Halt × Machine → Prop where
  | finished (returned : m.activity = .returned) (none : m.frames = []) : Halted m (.finished, m)
  | refused {frame : Frame} {rest : List Frame} (returned : m.activity = .returned)
      (waiting : m.frames = frame :: rest) (started : frame.state.isSome = true)
      (unable : (m.core.world.callable frame.function).isResumable = false) (e : Failure) (lines : List String) :
      Halted m (.failed e, m.log lines)
  | failed {e : Failure} {core : Core} (working : m.activity ≠ .returned)
      (stepped : m.activity.step m.core = (.error e, core)) (lines : List String) :
      Halted m (.failed e, ({ m with core }).log lines)
  | stranded {reason : SuspendReason} {frame : Frame} {core : Core} (working : m.activity ≠ .returned)
      (stepped : m.activity.step m.core = (.ok (.suspend reason frame), core))
      (undrained : core.context.draining = false) (lines : List String) :
      Halted m (.failed (.protocol .noPendingCall), ({ m with core }).log lines)
  | paused {reason : SuspendReason} {frame : Frame} {core : Core} (working : m.activity ≠ .returned)
      (stepped : m.activity.step m.core = (.ok (.suspend reason frame), core)) (lines : List String) :
      Halted m (.paused reason,
        { ({ m with core }).log lines with activity := .returned, callers := [], pending := frame :: m.frames })

theorem Halted.of_step {m : Machine} {result : Halt × Machine} (halted : m.step = .inr result) : m.Halted result := by
  by_cases returned : m.activity = .returned
  · have stepped := Return.of_step returned
    rw [halted] at stepped
    cases stepped with
    | finished none => exact .finished returned none
    | refused waiting started unable e => exact .refused returned waiting started unable e _
  · rw [step_working rfl returned] at halted
    rcases stepped : m.activity.step m.core with ⟨outcome, core⟩
    rw [stepped] at halted
    rcases outcome with e | (activity | ⟨frame, r, w⟩ | ⟨reason, frame⟩)
    · cases halted
      exact .failed returned stepped _
    · cases halted
    · cases halted
    · simp only [after, suspend] at halted
      split at halted
      · cases halted
        exact .paused returned stepped _
      · next undrained =>
        cases halted
        exact .stranded returned stepped (Bool.eq_false_iff.mpr undrained) _

/-- The machine of the drain that follows a suspension. -/
def restarted (m : Machine) : Machine :=
  { core :=
      { m.core with
        context := { m.core.context with budget := m.core.context.budget.refill, draining := true } }
    pending := m.pending }

/-- A run through all its suspensions to its end, with the number of pauses, the calls made on
the way, and how and where it ends. -/
inductive Completes : Machine → Nat → List Call → Halt → Machine → Prop where
  | stop {m halt last} (halted : m.step = .inr (halt, last)) (ended : ∀ reason, halt ≠ .paused reason) :
      Completes m 0 m.call halt last
  | next {m next pauses calls halt last} (moved : m.step = .inl next)
      (rest : Completes next pauses calls halt last) : Completes m pauses (m.call ++ calls) halt last
  | pause {m paused reason pauses calls halt last} (halted : m.step = .inr (.paused reason, paused))
      (rest : Completes paused.restarted pauses calls halt last) :
      Completes m (pauses + 1) (m.call ++ calls) halt last

/-- A stretch of a run, through any suspensions on the way, with the number of pauses and the
calls made. -/
inductive Reaches : Machine → Nat → List Call → Machine → Prop where
  | here {m} : Reaches m 0 [] m
  | next {m next pauses calls last} (moved : m.step = .inl next) (rest : Reaches next pauses calls last) :
      Reaches m pauses (m.call ++ calls) last
  | pause {m paused reason pauses calls last} (halted : m.step = .inr (.paused reason, paused))
      (rest : Reaches paused.restarted pauses calls last) : Reaches m (pauses + 1) (m.call ++ calls) last

theorem Reaches.trans {m n last : Machine} {first rest : Nat} {before later : List Call}
    (start : Reaches m first before n) (goes : Reaches n rest later last) :
    Reaches m (first + rest) (before ++ later) last := by
  induction start with
  | here =>
    rw [Nat.zero_add]
    exact goes
  | next moved _ ih =>
    rw [List.append_assoc]
    exact .next moved (ih goes)
  | pause halted _ ih =>
    rw [List.append_assoc, Nat.add_right_comm]
    exact .pause halted (ih goes)

theorem Reaches.completes {m n last : Machine} {first rest : Nat} {before later : List Call} {halt : Halt}
    (start : Reaches m first before n) (goes : Completes n rest later halt last) :
    Completes m (first + rest) (before ++ later) halt last := by
  induction start with
  | here =>
    rw [Nat.zero_add]
    exact goes
  | next moved _ ih =>
    rw [List.append_assoc]
    exact .next moved (ih goes)
  | pause halted _ ih =>
    rw [List.append_assoc, Nat.add_right_comm]
    exact .pause halted (ih goes)

theorem Completes.reaches {m last : Machine} {pauses : Nat} {calls : List Call} {halt : Halt}
    (completes : Completes m pauses calls halt last) : ∃ before final, m.Reaches pauses before final ∧
      final.step = .inr (halt, last) ∧ (∀ reason, halt ≠ .paused reason) ∧ calls = before ++ final.call := by
  induction completes with
  | stop halted ended => exact ⟨[], _, .here, halted, ended, rfl⟩
  | next moved _ ih =>
    obtain ⟨before, final, goes, halted, ended, rfl⟩ := ih
    exact ⟨_, final, .next moved goes, halted, ended, (List.append_assoc _ _ _).symm⟩
  | pause paused _ ih =>
    obtain ⟨before, final, goes, halted, ended, rfl⟩ := ih
    exact ⟨_, final, .pause paused goes, halted, ended, (List.append_assoc _ _ _).symm⟩

theorem run_inl {m next : Machine} (moved : m.step = .inl next) (fuel : Nat) :
    m.run (fuel + 1) = next.run fuel := by
  simp only [run, moved]

theorem run_inr {m last : Machine} {halt : Halt} (halted : m.step = .inr (halt, last)) (fuel : Nat) :
    m.run (fuel + 1) = some (halt, last) := by
  simp only [run, halted]

/-- More fuel changes nothing about a run that has come to rest. -/
theorem run_mono {m : Machine} {fuel more : Nat} {result : Halt × Machine} (ran : m.run fuel = some result)
    (enough : fuel ≤ more) : m.run more = some result := by
  induction fuel generalizing m more with
  | zero => cases ran
  | succ fuel ih =>
    obtain ⟨more, rfl⟩ := Nat.exists_eq_add_of_le' (Nat.le_trans (Nat.le_add_left 1 fuel) enough)
    cases moved : m.step with
    | inl next =>
      rw [run_inl moved] at ran ⊢
      exact ih ran (Nat.le_of_succ_le_succ enough)
    | inr rested =>
      rw [run_inr moved] at ran ⊢
      exact ran

section Preserved

/-! What each step of an activity preserves, and the logging at the end of a run, a run preserves. -/

variable {R : Core → Core → Prop} {m next last : Machine} {halt : Halt}

private theorem worked_preserves (stepped : ∀ (a : Activity) (c : Core), R c (a.step c).2) {a : Activity} {c d : Core}
    {result : Except Failure Move} (moved : a.step c = (result, d)) : R c d := by
  have kept := stepped a c
  rw [moved] at kept
  exact kept

theorem step_preserves (refl : ∀ c, R c c) (stepped : ∀ (a : Activity) (c : Core), R c (a.step c).2)
    (moved : m.step = .inl next) : R m.core next.core := by
  cases Step.of_step moved with
  | returned => exact refl _
  | went _ answered | called _ answered => exact worked_preserves stepped answered

theorem halted_preserves (refl : ∀ c, R c c) (trans : ∀ {c d e}, R c d → R d e → R c e)
    (stepped : ∀ (a : Activity) (c : Core), R c (a.step c).2)
    (logged : ∀ (c : Core) (log : List String), R c { c with world := { c.world with log } })
    (halted : m.step = .inr (halt, last)) : R m.core last.core := by
  cases Halted.of_step halted with
  | finished => exact refl _
  | refused _ _ _ _ e lines => exact logged _ _
  | failed _ answered lines | stranded _ answered _ lines | paused _ answered lines =>
    exact trans (worked_preserves stepped answered) (logged _ _)

theorem run_preserves (refl : ∀ c, R c c) (trans : ∀ {c d e}, R c d → R d e → R c e)
    (stepped : ∀ (a : Activity) (c : Core), R c (a.step c).2)
    (logged : ∀ (c : Core) (log : List String), R c { c with world := { c.world with log } }) {fuel : Nat}
    (ran : m.run fuel = some (halt, last)) : R m.core last.core := by
  induction fuel generalizing m with
  | zero => cases ran
  | succ fuel ih =>
    cases moved : m.step with
    | inl next =>
      rw [run_inl moved] at ran
      exact trans (step_preserves refl stepped moved) (ih ran)
    | inr result =>
      rw [run_inr moved] at ran
      cases ran
      exact halted_preserves refl trans stepped logged moved

end Preserved

theorem observed_inl {α : Type} {look : Machine → List α} {m next : Machine} (moved : m.step = .inl next)
    (n : Nat) : m.observed look (n + 1) = look m ++ next.observed look n := by
  simp only [observed, moved]

theorem observed_inr {α : Type} {look : Machine → List α} {m : Machine} {result : Halt × Machine}
    (halted : m.step = .inr result) (n : Nat) : m.observed look (n + 1) = look m := by
  simp only [observed, halted]

theorem mem_observed_now {α : Type} {look : Machine → List α} {m : Machine} {a : α} (here : a ∈ look m) (n : Nat) :
    a ∈ m.observed look (n + 1) := by
  simp only [observed]
  split
  · exact List.mem_append_left _ here
  · exact here

theorem mem_observed_later {α : Type} {look : Machine → List α} {m next : Machine} (moved : m.step = .inl next)
    {n : Nat} {a : α} (seen : a ∈ next.observed look n) : a ∈ m.observed look (n + 1) := by
  rw [observed_inl moved]
  exact List.mem_append_right _ seen

/-- What a run shows it shows at a machine of which all holds that the steps keep. -/
theorem exists_of_mem_observed {α : Type} {look : Machine → List α} {P : Machine → Prop}
    (steps : ∀ {m next}, P m → m.step = .inl next → P next) {m : Machine} (start : P m) {n : Nat} {a : α}
    (seen : a ∈ m.observed look n) : ∃ moment, P moment ∧ a ∈ look moment := by
  induction n generalizing m with
  | zero => cases seen
  | succ n ih =>
    cases moved : m.step with
    | inl next =>
      rw [observed_inl moved] at seen
      rcases List.mem_append.mp seen with here | later
      · exact ⟨m, start, here⟩
      · exact ih (steps start moved) later
    | inr result =>
      rw [observed_inr moved] at seen
      exact ⟨m, start, seen⟩

/-- What is at work is a function of a world that the steps have led to. -/
theorem exists_of_mem_involved {P : Machine → Prop} (steps : ∀ {m next}, P m → m.step = .inl next → P next)
    {m : Machine} (start : P m) {n : Nat} {c : Callable} (seen : c ∈ m.involved n) :
    ∃ moment, P moment ∧ ∃ f, c = moment.core.world.callable f := by
  obtain ⟨moment, kept, here⟩ := exists_of_mem_observed steps start seen
  obtain ⟨f, -, same⟩ := Option.map_eq_some_iff.mp (Option.mem_toList.mp here)
  exact ⟨moment, kept, f, same.symm⟩

theorem mem_involved {m : Machine} {f : FunctionId} (active : m.activity.function? = some f) (n : Nat) :
    m.core.world.callable f ∈ m.involved (n + 1) := by
  refine mem_observed_now ?_ n
  simp only [active, Option.map_some, Option.toList_some, List.mem_singleton]

/-- A run that comes to rest shows all it ever shows within its fuel. -/
theorem observed_run {α : Type} {look : Machine → List α} {m : Machine} {fuel : Nat}
    (ran : (m.run fuel).isSome = true) (n : Nat) {a : α} (seen : a ∈ m.observed look n) :
    a ∈ m.observed look fuel := by
  induction fuel generalizing m n with
  | zero => cases ran
  | succ fuel ih =>
    cases n with
    | zero => cases seen
    | succ n =>
      cases moved : m.step with
      | inl next =>
        rw [observed_inl moved] at seen ⊢
        rw [run_inl moved] at ran
        rcases List.mem_append.mp seen with here | later
        · exact List.mem_append.mpr (.inl here)
        · exact List.mem_append.mpr (.inr (ih ran n later))
      | inr result =>
        rw [observed_inr moved] at seen ⊢
        exact seen

/-- The first drain of a completed run: it ends the run, or it is suspended and the rest is
completed by later drains. -/
theorem Completes.first_drain {m last : Machine} {pauses : Nat} {calls : List Call} {halt : Halt}
    (completes : m.Completes pauses calls halt last) :
    (pauses = 0 ∧ (∀ reason, halt ≠ .paused reason) ∧
      ∃ fuel, m.run fuel = some (halt, last) ∧ calls = m.calls fuel) ∨
    ∃ fuel reason paused later rest, m.run fuel = some (.paused reason, paused) ∧ pauses = later + 1 ∧
      calls = m.calls fuel ++ rest ∧ paused.restarted.Completes later rest halt last := by
  induction completes with
  | stop halted ended =>
    exact .inl ⟨rfl, ended, 1, run_inr halted 0, (observed_inr halted 0).symm⟩
  | next moved rest ih =>
    rcases ih with ⟨none, ended, fuel, ran, same⟩ | ⟨fuel, reason, paused, later, rest, ran, more, same, goes⟩
    · refine .inl ⟨none, ended, fuel + 1, by rw [run_inl moved, ran], ?_⟩
      rw [same]
      exact (observed_inl moved fuel).symm
    · refine .inr ⟨fuel + 1, reason, paused, later, rest, by rw [run_inl moved, ran], more, ?_, goes⟩
      rw [same, ← List.append_assoc]
      exact congrArg (· ++ rest) (observed_inl moved fuel).symm
  | @pause m paused reason pauses calls halt last halted rest ih =>
    refine .inr ⟨1, reason, paused, pauses, calls, run_inr halted 0, rfl, ?_, rest⟩
    exact congrArg (· ++ calls) (observed_inr halted 0).symm

/-- A suspension is one of the function at work, and saves its frame in front of all that wait. -/
theorem suspended_of_paused {m last : Machine} {reason : SuspendReason}
    (halted : m.step = .inr (.paused reason, last)) : ∃ frame core,
      m.activity.step m.core = (.ok (.suspend reason frame), core) ∧ last.pending = frame :: m.frames ∧
      last.core.world.functions = core.world.functions := by
  cases Halted.of_step halted with
  | paused working stepped lines => exact ⟨_, _, stepped, rfl, rfl⟩

theorem run_pending {m last : Machine} {fuel : Nat} {reason : SuspendReason}
    (ran : m.run fuel = some (.paused reason, last)) : last.pending ≠ [] := by
  induction fuel generalizing m with
  | zero => cases ran
  | succ fuel ih =>
    cases moved : m.step with
    | inl next => exact ih (by rwa [run_inl moved] at ran)
    | inr result =>
      obtain ⟨_, _⟩ := result
      rw [run_inr moved] at ran
      cases ran
      obtain ⟨_, _, _, saved, _⟩ := suspended_of_paused moved
      rw [saved]
      exact List.cons_ne_nil _ _

/-- A run that is finished leaves no frame. -/
theorem pending_of_finished {m last : Machine} {fuel : Nat} (ran : m.run fuel = some (.finished, last)) :
    last.pending = [] := by
  induction fuel generalizing m with
  | zero => cases ran
  | succ fuel ih =>
    cases moved : m.step with
    | inl next => exact ih (by rwa [run_inl moved] at ran)
    | inr result =>
      obtain ⟨_, _⟩ := result
      rw [run_inr moved] at ran
      cases ran
      cases Halted.of_step moved with
      | finished returned none => exact (List.append_eq_nil_iff.mp none).2

end Machine

theorem ok_of_toOption {ε α : Type} {answer : Except ε α} {a : α} (told : answer.toOption = some a) : answer = .ok a := by
  cases answer with
  | error _ => cases told
  | ok _ => exact congrArg Except.ok (Option.some.inj told)

namespace Executor

theorem callStack_of_pushCall {e pending : Executor} {f : FunctionId} {args : List Value}
    (pushed : e.pushCall f args = (.ok (), pending)) : pending.callStack = [⟨f, ⟨0⟩, none⟩] := by
  unfold pushCall at pushed
  split at pushed
  · cases pushed
  · split at pushed <;> cases pushed
    rfl

theorem machine_step_entry {e : Executor} {f : FunctionId} (entry : e.callStack = [⟨f, ⟨0⟩, none⟩]) (w : World) :
    (e.machine w).step = .inl { core := (e.machine w).core, activity := .enter f ⟨0⟩ } := by
  simp only [machine, entry]
  rfl

theorem drain_mono {w : World} {e : Executor} {fuel more : Nat} {result : Except Failure Drain × World × Executor}
    (ran : drain fuel w e = some result) (enough : fuel ≤ more) : drain more w e = some result := by
  unfold drain at ran ⊢
  split at ran
  · next idle => rwa [if_pos idle]
  · next busy =>
    rw [if_neg busy]
    cases here : (e.machine w).run fuel with
    | none => simp [here] at ran
    | some rested =>
      rw [Machine.run_mono here enough]
      simpa only [here] using ran

theorem drain_unique {w : World} {e : Executor} {fuel fuel' : Nat}
    {result result' : Except Failure Drain × World × Executor} (ran : drain fuel w e = some result)
    (ran' : drain fuel' w e = some result') : result' = result := by
  have first := drain_mono ran (Nat.le_max_left fuel fuel')
  have second := drain_mono ran' (Nat.le_max_right fuel fuel')
  exact Option.some.inj (second.symm.trans first)

/-- A pending call that is drained until it ends, with the number of pauses, the calls made on
the way, what comes of it, and the world it leaves. -/
inductive Drained : World → Executor → Nat → List Call → Except Failure (List Value) → World → Prop where
  | finished {w e fuel last drained} (ran : drain fuel w e = some (.ok .finished, last, drained)) :
      Drained w e 0 ((e.machine w).calls fuel) (.ok drained.results) last
  | failed {w e fuel error last drained} (ran : drain fuel w e = some (.error error, last, drained)) :
      Drained w e 0 ((e.machine w).calls fuel) (.error error) last
  | paused {w e fuel between drained pauses calls outcome last}
      (ran : drain fuel w e = some (.ok .paused, between, drained))
      (rest : Drained between drained pauses calls outcome last) :
      Drained w e (pauses + 1) ((e.machine w).calls fuel ++ calls) outcome last

def outcome (halt : Halt) (last : Machine) : Except Failure (List Value) :=
  match halt with
  | .finished => .ok ((⟨0⟩ : Window).values last.core.context.stack)
  | .failed error => .error error
  | .paused _ => .ok []

theorem drain_of_run {w : World} {e : Executor} (pending : e.callStack ≠ []) {fuel : Nat} {halt : Halt}
    {last : Machine} (ran : (e.machine w).run fuel = some (halt, last)) :
    drain fuel w e = some ((e.settled halt last).1, last.core.world, (e.settled halt last).2) := by
  have busy : e.callStack.isEmpty = false := by simpa using pending
  simp only [drain, busy, ran, Bool.false_eq_true, ite_false]

theorem drain_of_idle {e : Executor} (idle : e.callStack = []) (fuel : Nat) (w : World) :
    drain fuel w e = some (.error (.protocol .noPendingCall), w, e) := by
  simp only [drain, idle, List.isEmpty_nil, if_true]

/-- A drain that is told not to have failed leaves a world and an executor. -/
theorem drain_of_told {w : World} {e : Executor} {fuel : Nat} {result : Drain}
    (told : (drain fuel w e).bind (·.1.toOption) = some result) : ∃ v after, drain fuel w e = some (.ok result, v, after) := by
  obtain ⟨⟨answer, v, after⟩, ran, same⟩ := Option.bind_eq_some_iff.mp told
  obtain rfl := ok_of_toOption same
  exact ⟨v, after, ran⟩

/-- What the run of a drain leaves is settled. -/
theorem run_of_drain {w v : World} {e after : Executor} (pending : e.callStack ≠ []) {fuel : Nat}
    {result : Except Failure Drain} (ran : drain fuel w e = some (result, v, after)) : ∃ halt last,
      (e.machine w).run fuel = some (halt, last) ∧ v = last.core.world ∧ result = (e.settled halt last).1 ∧
        after = (e.settled halt last).2 := by
  cases rested : (e.machine w).run fuel with
  | none => simp [drain, pending, rested] at ran
  | some halted =>
    obtain ⟨halt, last⟩ := halted
    rw [drain_of_run pending rested] at ran
    cases ran
    exact ⟨halt, last, rfl, rfl, rfl, rfl⟩

/-- A drain of no call changes nothing, and what the run of another one leaves is settled. -/
theorem of_drain {w v : World} {e after : Executor} {fuel : Nat} {result : Except Failure Drain}
    (ran : drain fuel w e = some (result, v, after)) :
    (result = .error (.protocol .noPendingCall) ∧ v = w ∧ after = e) ∨ ∃ halt last,
      (e.machine w).run fuel = some (halt, last) ∧ v = last.core.world ∧ result = (e.settled halt last).1 ∧
        after = (e.settled halt last).2 := by
  by_cases idle : e.callStack = []
  · rw [drain_of_idle idle] at ran
    cases ran
    exact .inl ⟨rfl, rfl, rfl⟩
  · exact .inr (run_of_drain idle ran)

theorem Drained.of_completes {w : World} {e : Executor} (pending : e.callStack ≠ []) {pauses : Nat}
    {calls : List Call} {halt : Halt} {last : Machine} (completes : (e.machine w).Completes pauses calls halt last) :
    Drained w e pauses calls (outcome halt last) last.core.world := by
  induction pauses generalizing w e calls with
  | zero =>
    rcases completes.first_drain with ⟨_, ended, fuel, ran, rfl⟩ | ⟨_, _, _, _, _, _, impossible, _⟩
    · have drained := drain_of_run pending ran
      cases halt with
      | finished => exact .finished drained
      | failed error => exact .failed drained
      | paused reason => exact absurd rfl (ended reason)
    · cases impossible
  | succ pauses ih =>
    rcases completes.first_drain with ⟨impossible, _⟩ | ⟨fuel, reason, paused, later, rest, ran, more, rfl, goes⟩
    · cases impossible
    · cases more
      have drained := drain_of_run pending ran
      refine .paused drained ?_
      exact ih (Machine.run_pending ran) goes

/-- A drain that is paused is a run that comes to rest in a suspension, and leaves its frames. -/
theorem run_of_paused {w v : World} {e paused : Executor} {fuel : Nat}
    (ran : drain fuel w e = some (.ok .paused, v, paused)) : ∃ reason last,
      (e.machine w).run fuel = some (.paused reason, last) ∧ v = last.core.world ∧ paused.callStack = last.pending := by
  rcases of_drain ran with ⟨other, _⟩ | ⟨halt, last, rested, rfl, same, rfl⟩
  · cases other
  · cases halt with
    | finished | failed _ => cases same
    | paused reason => exact ⟨reason, last, rested, rfl, rfl⟩

theorem run_of_drained {w last : World} {e : Executor} {calls : List Call} {result : Except Failure (List Value)}
    (pending : e.callStack ≠ []) (drained : Drained w e 0 calls result last) :
    ∃ fuel halt m, (e.machine w).run fuel = some (halt, m) ∧ (∀ reason, halt ≠ .paused reason) ∧
      calls = (e.machine w).calls fuel ∧ result = outcome halt m ∧ last = m.core.world := by
  cases drained with
  | @finished _ _ fuel _ after ran =>
    obtain ⟨halt, m, rested, rfl, same, rfl⟩ := run_of_drain pending ran
    cases halt with
    | finished => exact ⟨fuel, .finished, m, rested, by simp, rfl, rfl, rfl⟩
    | paused _ | failed _ => cases same
  | @failed _ _ fuel error _ after ran =>
    obtain ⟨halt, m, rested, rfl, same, rfl⟩ := run_of_drain pending ran
    cases halt with
    | failed error =>
      cases same
      exact ⟨fuel, .failed error, m, rested, by simp, rfl, rfl, rfl⟩
    | finished | paused _ => cases same

end Executor

end CoopScript
