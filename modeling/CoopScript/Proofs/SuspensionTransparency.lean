import CoopScript.Proofs.FrameRegisters
import CoopScript.Proofs.NativeCalls

/-! Suspension is transparent to scripts. A call of scripts, native functions and `pause` is set
beside the same call in the prompt world without a budget, where nothing is ever suspended. The
two go on in step, except that the first is suspended now and then: where it is, its next drain
takes it to where the other one already is. -/

namespace CoopScript

namespace Activity

/-- Only scripts are resumed or run, and a script that runs has its frame. -/
def Sound (c : Core) : Activity → Prop
  | .resume f _ _ => (c.world.proto? f).isSome
  | .running f w _ => ∃ p, c.world.proto? f = some p ∧ p.Framed w c.context.stack
  | .returned | .dispatch _ _ | .enter _ _ => True

end Activity

namespace Move

/-- Nothing is suspended, and only scripts wait for calls. -/
def Sound (c : Core) : Move → Prop
  | .go a => a.Sound c
  | .call frame _ _ => (c.world.proto? frame.function).isSome
  | .suspend _ _ => False

end Move

/-! What requests and scripts come to, accounting apart, is sound. -/

section Sound

variable {c : Core} {f : FunctionId} {w : Window} {p : Proto} {move : Move}

theorem Activity.dispatch_sound {r : Request} (moved : ((dispatch r w).step c).1 = .ok move) :
    move.Sound ((dispatch r w).step c).2 := by
  simp only [step, Core.bind_apply] at moved ⊢
  rcases served : r.serve w c with ⟨_ | a, after⟩ <;> rw [served] at moved
  · cases moved
  · cases moved
    cases Request.serve_served (congrArg Prod.fst served) <;> trivial

namespace Callable

theorem invoke_script_sound (found : c.world.proto? f = some p) (moved : ((script p).invoke f w c).1 = .ok move) :
    move.Sound ((script p).invoke f w c).2 := by
  simp only [invoke, Core.bind_apply, Core.getStack_apply] at moved ⊢
  have kept := (Core.Conservative.of_local (p.enter_local w) c).code f
  rcases entered : p.enter w c with ⟨_ | _, after⟩ <;> rw [entered] at moved kept
  · cases moved
  · cases moved
    have framed := Proto.enter_framed (congrArg Prod.fst entered)
    rw [entered] at framed
    exact ⟨p, kept.trans found, framed⟩

theorem resume_script_sound {s : Saved} (found : c.world.proto? f = some p)
    (moved : ((script p).resume f w s c).1 = .ok move) : move.Sound ((script p).resume f w s c).2 := by
  cases s with
  | script pc pending =>
    simp only [resume, Core.bind_apply, Core.getStack_apply] at moved ⊢
    have kept := (Core.Conservative.of_local (p.resume_local w pending) c).code f
    rcases resumed : p.resume w pending c with ⟨_ | _, after⟩ <;> rw [resumed] at moved kept
    · cases moved
    · cases moved
      have framed := Proto.resume_framed (congrArg Prod.fst resumed)
      rw [resumed] at framed
      exact ⟨p, kept.trans found, framed⟩
  | _ => cases moved

end Callable

theorem Proto.stepOf_sound {pc : Nat} (found : c.world.proto? f = some p) (framed : p.Framed w c.context.stack)
    (moved : (stepOf f w pc c (p.effect w c.context.stack p.code[pc]?)).1 = .ok move) :
    move.Sound (stepOf f w pc c (p.effect w c.context.stack p.code[pc]?)).2 := by
  cases done : (p.effect w c.context.stack p.code[pc]?).1 with
  | error e =>
    rw [stepOf, done] at moved
    cases moved
  | ok effect =>
    rw [stepOf, done] at moved
    cases moved
    cases effect with
    | advance => exact ⟨p, found, effect_framed framed done (.inl rfl)⟩
    | jump target => exact ⟨p, found, effect_framed framed done (.inr ⟨target, rfl⟩)⟩
    | await pending r callee => exact Option.isSome_iff_exists.mpr ⟨p, found⟩
    | leave => trivial

end Sound

namespace Machine

def Scripted (m : Machine) : Prop := ∀ frame ∈ m.frames, (m.core.world.proto? frame.function).isSome

namespace Scripted

variable {m : Machine}

private theorem watcher_none {frame : Frame} {w : World} (script : (w.proto? frame.function).isSome) :
    frame.watcher? w = none := by
  obtain ⟨p, found⟩ := Option.isSome_iff_exists.mp script
  simp only [Frame.watcher?, World.proto?_eq_some.mp found]

private theorem log_nil (m : Machine) : m.log [] = m := by
  simp only [log, List.append_nil]

/-- Scripts do not watch the failures of their calls. -/
theorem fail_eq (scripted : m.Scripted) (e : Failure) : m.fail e = (.failed e, m) := by
  have silent : m.failureLines e = [] := by
    apply List.filterMap_eq_nil_iff.mpr
    intro frame member
    rw [watcher_none (scripted frame (List.mem_append_left _ member))]
    rfl
  rw [fail, silent, log_nil]

theorem suspend_eq (scripted : m.Scripted) (draining : m.core.context.draining = true) (reason : SuspendReason)
    (frame : Frame) :
    m.suspend reason frame =
      (.paused reason, { m with activity := .returned, callers := [], pending := frame :: m.frames }) := by
  have silent : m.suspensionLines reason frame = [] := by
    apply List.filterMap_eq_nil_iff.mpr
    rintro ⟨caller, i⟩ member
    have waiting : caller ∈ m.callers := List.mem_of_getElem? (List.mk_mem_zipIdx_iff_getElem?.mp member)
    simp only [watcher_none (scripted caller (List.mem_append_left _ waiting)), Option.map_none]
  rw [suspend, if_pos draining, silent, log_nil]
  rfl

end Scripted

/-- A machine and the one of the run without suspensions, at the same point of the call. They
may differ in which frames have been saved before. -/
structure Mirrors (m n : Machine) : Prop where
  core : m.core.Mirrors n.core
  activity : n.activity = m.activity
  frames : n.frames = m.frames
  scripted : m.Scripted
  sound : m.activity.Sound m.core

inductive Agree : Machine ⊕ (Halt × Machine) → Machine ⊕ (Halt × Machine) → Prop where
  | moved {m n} (mirrors : Mirrors m n) : Agree (.inl m) (.inl n)
  | ended {m n halt} (ended : ∀ reason, halt ≠ .paused reason) (core : m.core.Mirrors n.core) :
      Agree (.inr (halt, m)) (.inr (halt, n))

theorem Scripted.of_mirrors {m n : Machine} {c d : Core} (scripted : m.Scripted) (frames : n.frames = m.frames)
    (kept : ∀ f, c.world.proto? f = m.core.world.proto? f) (core : c.Mirrors d) : ({ n with core := d }).Scripted := by
  intro frame member
  change (d.world.proto? frame.function).isSome
  rw [core.world, World.proto?_prompt, kept]
  exact scripted frame (frames ▸ member)

theorem after_agree {m n : Machine} (scripted : m.Scripted) (frames : n.frames = m.frames)
    {result : Except Failure Move} {c d : Core} (core : c.Mirrors d)
    (kept : ∀ f, c.world.proto? f = m.core.world.proto? f) (sound : ∀ move, result = .ok move → move.Sound c) :
    Agree (m.after (result, c)) (n.after (result, d)) := by
  have here : ({ m with core := c }).Scripted := by
    intro frame member
    change (c.world.proto? frame.function).isSome
    rw [kept]
    exact scripted frame member
  have there := scripted.of_mirrors frames kept core
  rcases result with e | (a | ⟨frame, r, w⟩ | ⟨reason, frame⟩)
  · simp only [after, here.fail_eq, there.fail_eq]
    exact .ended (by simp) core
  · exact .moved ⟨core, rfl, frames, here, sound _ rfl⟩
  · refine .moved ⟨core, rfl, congrArg (frame :: ·) frames, ?_, trivial⟩
    intro other member
    rcases List.mem_cons.mp member with rfl | member
    · exact sound _ rfl
    · exact here other member
  · exact (sound _ rfl).elim

theorem even_agree {m n : Machine} (core : m.core.Mirrors n.core) (frames : n.frames = m.frames) (scripted : m.Scripted)
    {a b : Activity} (active : m.activity = a) (active' : n.activity = b) (working : a ≠ .returned)
    (working' : b ≠ .returned) {op : CoreM Move} (even : Core.Even op) (here : a.step m.core = op m.core)
    (there : b.step n.core = op n.core)
    (sound : ∀ move, (op m.core).1 = .ok move → move.Sound (op m.core).2) : Agree m.step n.step := by
  obtain ⟨same, after⟩ := even m.core n.core core
  have kept (f : FunctionId) : (op m.core).2.world.proto? f = m.core.world.proto? f :=
    here ▸ (a.step_keeps m.core).code f
  rw [step_working active working, step_working active' working', here, there]
  rcases ranHere : op m.core with ⟨result, c⟩
  rcases ranThere : op n.core with ⟨result', d⟩
  simp only [ranHere, ranThere] at same after sound kept
  subst same
  exact after_agree scripted frames after kept sound

/-- A suspension after which the next drain goes on at `between`. -/
def Pauses (m between : Machine) : Prop :=
  ∃ reason paused, m.step = .inr (.paused reason, paused) ∧ paused.restarted.step = .inl between ∧ between.call = []

/-- A step to the same point, or a suspension from which the next drain gets there. -/
def Advances (m n : Machine) : Prop := Agree m.step n.step ∨ ∃ between, m.Pauses between ∧ Agree between.step n.step

namespace Mirrors

variable {m n : Machine}

theorem call (mirrors : Mirrors m n) : n.call = m.call := by
  simp only [Machine.call, mirrors.activity, mirrors.core.stack]

theorem proto? (mirrors : Mirrors m n) (f : FunctionId) : n.core.world.proto? f = m.core.world.proto? f := by
  rw [mirrors.core.world, World.proto?_prompt]

/-- A suspension in a drain keeps all the frames, and the next drain takes up the first. -/
theorem pauses (mirrors : Mirrors m n) {a : Activity} (active : m.activity = a) (working : a ≠ .returned)
    {f : FunctionId} {w : Window} {s : Saved} {reason : SuspendReason} {c : Core}
    (stepped : a.step m.core = (.ok (.suspend reason ⟨f, w, some s⟩), c)) (world : c.world = m.core.world)
    (draining : c.context.draining = true) (stack : c.context.stack = m.core.context.stack) (resumable : (m.core.world.callable f).isResumable = true) :
    ∃ between, m.Pauses between ∧ between.activity = .resume f w s ∧ between.frames = m.frames ∧
      between.core.world = m.core.world ∧ between.core.Mirrors n.core := by
  have scripted : ({ m with core := c }).Scripted := by
    intro frame member
    change (c.world.proto? frame.function).isSome
    rw [world]
    exact mirrors.scripted frame member
  have halted : m.step = .inr (.paused reason,
      { m with core := c, activity := .returned, callers := [], pending := ⟨f, w, some s⟩ :: m.frames }) := by
    rw [step_working active working, stepped]
    exact congrArg Sum.inr (scripted.suspend_eq draining reason _)
  have waiting : (restarted
      { m with core := c, activity := .returned, callers := [], pending := ⟨f, w, some s⟩ :: m.frames }).frames =
      ⟨f, w, some s⟩ :: m.frames := rfl
  obtain ⟨callers, pending, rest, taken⟩ := step_returned rfl waiting (.inr (by
    change (c.world.callable f).isResumable = true
    rw [world, resumable]))
  refine ⟨_, ⟨reason, _, halted, taken, rfl⟩, rfl, rest, world, ?_⟩
  refine ⟨?_, ?_, rfl, mirrors.core.unmetered⟩
  · rw [mirrors.core.world]
    exact congrArg World.prompt world.symm
  · rw [mirrors.core.stack]
    exact stack.symm

theorem returned_advances (mirrors : Mirrors m n) (returned : m.activity = .returned) : Advances m n := by
  have there : n.activity = .returned := mirrors.activity.trans returned
  refine .inl ?_
  cases waiting : m.frames with
  | nil =>
    rw [step_finished returned waiting, step_finished there (mirrors.frames.trans waiting)]
    exact .ended (by simp) mirrors.core
  | cons frame rest =>
    have script := mirrors.scripted frame (waiting ▸ List.mem_cons_self)
    have script' : (n.core.world.proto? frame.function).isSome := by rwa [mirrors.proto?]
    obtain ⟨callers, pending, same, moved⟩ :=
      step_returned returned waiting (.inr (World.isResumable_of_proto? script))
    obtain ⟨callers', pending', same', moved'⟩ :=
      step_returned there (mirrors.frames.trans waiting) (.inr (World.isResumable_of_proto? script'))
    rw [moved, moved']
    refine .moved ⟨mirrors.core, rfl, same'.trans same.symm, ?_, ?_⟩
    · intro other member
      exact mirrors.scripted other (waiting ▸ List.mem_cons_of_mem _ (same ▸ member))
    · simp only [Frame.activity]
      cases frame.state with
      | none => trivial
      | some s => exact script

theorem dispatch_advances (mirrors : Mirrors m n) {r : Request} {w : Window} (dispatch : m.activity = .dispatch r w) :
    Advances m n := by
  have there : n.activity = .dispatch r w := mirrors.activity.trans dispatch
  have even : Core.Even (Activity.dispatch r w).step :=
    Core.Even.bind (Request.serve_even r w) fun _ a _ => .of_local (.pure (Move.go a))
  exact .inl (even_agree mirrors.core mirrors.frames mirrors.scripted dispatch there (by simp) (by simp) even rfl rfl
    fun _ => Activity.dispatch_sound)

theorem enter_script_advances (mirrors : Mirrors m n) {f : FunctionId} {w : Window} (enter : m.activity = .enter f w)
    {p : Proto} (script : m.core.world.callable f = .script p) : Advances m n := by
  have there : n.activity = .enter f w := mirrors.activity.trans enter
  have scriptThere : n.core.world.callable f = .script p := by
    rwa [mirrors.core.world, World.callable_prompt_script]
  have stacked : Core.Local ((Callable.script p).invoke f w) :=
    Core.Local.getStack.bind fun _ => (p.enter_local w).bind fun _ => .pure _
  exact .inl (even_agree mirrors.core mirrors.frames mirrors.scripted enter there (by simp) (by simp) (.of_local stacked)
    (by rw [Activity.step_enter, script]) (by rw [Activity.step_enter, scriptThere])
    fun _ => Callable.invoke_script_sound (World.proto?_eq_some.mpr script))

/-- A pause is suspended with its arguments, and returns them in the next drain. -/
theorem enter_pause_advances (mirrors : Mirrors m n) {f : FunctionId} {w : Window} (enter : m.activity = .enter f w)
    (here : m.core.world.callable f = .builtin .pause)
    (there : n.core.world.callable f = (Callable.builtin .pause).prompt) : Advances m n := by
  have suspended : (Activity.enter f w).step m.core =
      (.ok (.suspend .yield ⟨f, w, some (.arguments (w.values m.core.context.stack))⟩), m.core) := by
    rw [Activity.step_enter, here]
    rfl
  obtain ⟨between, pauses, activity, frames, world, core⟩ := mirrors.pauses enter (by simp) suspended rfl
    mirrors.core.draining rfl (by rw [here]; rfl)
  refine .inr ⟨between, pauses, ?_⟩
  have stacked : Core.Local ((Action.ret (w.values m.core.context.stack)).perform f w) :=
    Action.Immediate.perform_local (.inr ⟨_, rfl⟩)
  refine even_agree core (mirrors.frames.trans frames.symm) ?_ activity (mirrors.activity.trans enter) (by simp) (by simp)
    (.of_local stacked) ?_ ?_ ?_
  · intro frame member
    rw [world]
    exact mirrors.scripted frame (frames ▸ member)
  · rw [Activity.step_resume, world, here]
    rfl
  · rw [Activity.step_enter, there, ← mirrors.core.stack]
    change (Action.ret (w.values n.core.context.stack)).perform f w
      { n.core with world := { n.core.world with log := n.core.world.log ++ [] } } = _
    rw [List.append_nil]
  · intro move moved
    cases Action.Immediate.perform_returned (.inr ⟨_, rfl⟩) moved
    trivial

theorem enter_advances (mirrors : Mirrors m n) {f : FunctionId} {w : Window} (enter : m.activity = .enter f w)
    (reached : (n.core.world.callable f).Steady) : Advances m n := by
  rcases reached with ⟨p, script⟩ | native
  · rw [mirrors.core.world, World.callable_prompt_script] at script
    exact mirrors.enter_script_advances enter script
  · have called : n.core.world.callable f = (m.core.world.callable f).prompt := by
      rw [mirrors.core.world, World.callable_prompt]
    by_cases waits : m.core.world.callable f = .builtin .pause
    · exact mirrors.enter_pause_advances enter waits (waits ▸ called)
    · rw [Callable.prompt_of_ne waits] at called
      have there : n.activity = .enter f w := mirrors.activity.trans enter
      refine .inl (even_agree mirrors.core mirrors.frames mirrors.scripted enter there (by simp) (by simp)
        (native.invoke_even f w) (by rw [Activity.step_enter, called]) (Activity.step_enter f w n.core) ?_)
      intro move moved
      cases native.invoke_returned f w moved
      trivial

theorem resume_advances (mirrors : Mirrors m n) {f : FunctionId} {w : Window} {s : Saved}
    (resume : m.activity = .resume f w s) : Advances m n := by
  have there : n.activity = .resume f w s := mirrors.activity.trans resume
  have sound := mirrors.sound
  rw [resume] at sound
  obtain ⟨p, found⟩ := Option.isSome_iff_exists.mp sound
  have stepped {c : Core} (script : c.world.proto? f = some p) :
      (Activity.resume f w s).step c = (Callable.script p).resume f w s c := by
    rw [Activity.step_resume, World.proto?_eq_some.mp script]
  have stacked : Core.Local ((Callable.script p).resume f w s) := by
    refine Core.Local.getStack.bind fun _ => ?_
    cases s with
    | script pc pending => exact (p.resume_local w pending).bind fun _ => .pure _
    | _ => exact .throw _
  exact .inl (even_agree mirrors.core mirrors.frames mirrors.scripted resume there (by simp) (by simp) (.of_local stacked)
    (stepped found) (stepped ((mirrors.proto? f).trans found)) fun _ => Callable.resume_script_sound found)

/-- A script that is preempted finds the cursor where it left it and goes on after the tick. -/
theorem preempted_advances (mirrors : Mirrors m n) {f : FunctionId} {w : Window} {pc : Nat} {p : Proto}
    (running : m.activity = .running f w pc) (found : m.core.world.proto? f = some p)
    (framed : p.Framed w m.core.context.stack) (tick : p.code[pc]? = some .tick)
    (exhausted : m.core.context.budget.isExhausted = true) : Advances m n := by
  have script := World.proto?_eq_some.mp found
  have there : n.core.world.callable f = .script p := World.proto?_eq_some.mp ((mirrors.proto? f).trans found)
  have suspended : (Activity.running f w pc).step m.core =
      (.ok (.suspend .preempted ⟨f, w, some (.script (pc + 1) none)⟩),
        m.core.withBudget m.core.context.budget.recordPreemption) := by
    rw [Activity.step_running script, Proto.step_tick _ tick, if_pos exhausted]
  obtain ⟨between, pauses, activity, frames, world, core⟩ := mirrors.pauses running (by simp) suspended rfl
    mirrors.core.draining rfl (by rw [script]; rfl)
  refine .inr ⟨between, pauses, ?_⟩
  have stack : between.core.context.stack = m.core.context.stack := core.stack.symm.trans mirrors.core.stack
  have resumed : (Activity.resume f w (.script (pc + 1) none)).step between.core =
      (.ok (.go (.running f w (pc + 1))), between.core) := by
    have placed : p.resume w none between.core = (.ok (), between.core) := by
      simp only [Proto.resume, Core.onStack_apply, stack, framed.setTop]
      rw [← stack]
      rfl
    rw [Activity.step_resume, world, script]
    simp only [Callable.resume, Core.bind_apply, Core.getStack_apply, placed]
    rfl
  have ticked : (Activity.running f w pc).step n.core = (.ok (.go (.running f w (pc + 1))), n.core) := by
    rw [Activity.step_running there, Proto.step_unmetered _ mirrors.core.unmetered, tick, Proto.effect_accounting rfl]
    rfl
  rw [step_working activity (by simp), step_working (mirrors.activity.trans running) (by simp), resumed, ticked]
  refine after_agree ?_ (mirrors.frames.trans frames.symm) core (fun _ => rfl) ?_
  · intro frame member
    rw [world]
    exact mirrors.scripted frame (frames ▸ member)
  · intro move moved
    cases moved
    exact ⟨p, world ▸ found, stack ▸ framed⟩

theorem running_advances (mirrors : Mirrors m n) {f : FunctionId} {w : Window} {pc : Nat}
    (running : m.activity = .running f w pc) : Advances m n := by
  have sound := mirrors.sound
  rw [running] at sound
  obtain ⟨p, found, framed⟩ := sound
  have script := World.proto?_eq_some.mp found
  have there : n.core.world.callable f = .script p := World.proto?_eq_some.mp ((mirrors.proto? f).trans found)
  have stepped : (Activity.running f w pc).step n.core =
      Proto.stepOf f w pc n.core (p.effect w m.core.context.stack p.code[pc]?) := by
    rw [Activity.step_running there, Proto.step_unmetered _ mirrors.core.unmetered, mirrors.core.stack]
  -- accounting that does not suspend changes nothing but the budget
  have passed {b : Budget} {instr : Instr} (here : p.code[pc]? = some instr) (accounting : instr.isAccounting = true)
      (went : (Activity.running f w pc).step m.core = (.ok (.go (.running f w (pc + 1))), m.core.withBudget b)) :
      Advances m n := by
    rw [here, Proto.effect_accounting accounting] at stepped
    refine .inl ?_
    rw [step_working running (by simp), step_working (mirrors.activity.trans running) (by simp), went, stepped]
    refine after_agree mirrors.scripted mirrors.frames ?_ (fun _ => rfl) ?_
    · exact ⟨mirrors.core.world, rfl, mirrors.core.draining, mirrors.core.unmetered⟩
    · intro move moved
      cases moved
      exact ⟨p, found, framed⟩
  rcases p.place_cases pc with plain | ⟨cost, here⟩ | here
  · refine .inl ?_
    rw [step_working running (by simp), step_working (mirrors.activity.trans running) (by simp),
      Activity.step_running script, Proto.step_plain _ plain, stepped]
    refine after_agree mirrors.scripted mirrors.frames ?_ (fun _ => rfl) ?_
    · exact ⟨mirrors.core.world, rfl, mirrors.core.draining, mirrors.core.unmetered⟩
    · exact fun _ => Proto.stepOf_sound found framed
  · refine passed (b := m.core.context.budget.charge cost) here rfl ?_
    rw [Activity.step_running script, Proto.step_charge _ here]
  · cases exhausted : m.core.context.budget.isExhausted with
    | true => exact mirrors.preempted_advances running found framed here exhausted
    | false =>
      refine passed (b := m.core.context.budget) here rfl ?_
      rw [Activity.step_running script, Proto.step_tick _ here, exhausted]
      rfl

/-- One step of the run without suspensions is matched, with a pause at most. -/
theorem advances (mirrors : Mirrors m n)
    (reached : ∀ f, n.activity.function? = some f → (n.core.world.callable f).Steady) : Advances m n := by
  cases activity : m.activity with
  | returned => exact mirrors.returned_advances activity
  | dispatch r w => exact mirrors.dispatch_advances activity
  | enter f w => exact mirrors.enter_advances activity (reached f (by rw [mirrors.activity, activity]; rfl))
  | resume f w s => exact mirrors.resume_advances activity
  | running f w pc => exact mirrors.running_advances activity

/-- The whole run is matched, by drains that make the same calls and come to the same end. -/
theorem completes (mirrors : Mirrors m n) {fuel : Nat} {halt : Halt} {last : Machine}
    (ran : n.run fuel = some (halt, last)) (reached : ∀ k, ∀ c ∈ n.involved k, c.Steady) :
    ∃ pauses last', m.Completes pauses (n.calls fuel) halt last' ∧ last'.core.Mirrors last.core := by
  induction fuel generalizing m n with
  | zero => cases ran
  | succ fuel ih =>
    have now (f : FunctionId) (active : n.activity.function? = some f) : (n.core.world.callable f).Steady :=
      reached 1 _ (mem_involved active 0)
    -- where the two agree, either both have ended or the rest follows by induction
    have agreed {between : Machine} (agree : Agree between.step n.step) : ∃ pauses later last',
        between.Completes pauses (between.call ++ later) halt last' ∧ n.calls (fuel + 1) = n.call ++ later ∧
          last'.core.Mirrors last.core := by
      generalize here : between.step = result at agree
      generalize there : n.step = result' at agree
      cases agree with
      | moved mirrors =>
        rw [run_inl there] at ran
        obtain ⟨pauses, last', rest, core⟩ := ih mirrors ran fun k c seen =>
          reached (k + 1) c (mem_observed_later there seen)
        exact ⟨pauses, _, last', .next here rest, observed_inl there fuel, core⟩
      | ended ended core =>
        rw [run_inr there] at ran
        cases ran
        refine ⟨0, [], _, ?_, (observed_inr there fuel).trans (List.append_nil _).symm, core⟩
        rw [List.append_nil]
        exact .stop here ended
    rcases mirrors.advances now with agree | ⟨between, ⟨reason, paused, halted, taken, silent⟩, agree⟩
    · obtain ⟨pauses, later, last', rest, same, core⟩ := agreed agree
      rw [same, mirrors.call]
      exact ⟨pauses, last', rest, core⟩
    · obtain ⟨pauses, later, last', rest, same, core⟩ := agreed agree
      rw [silent] at rest
      rw [same, mirrors.call]
      exact ⟨pauses + 1, last', .pause halted (.next taken rest), core⟩

end Mirrors

end Machine

namespace Executor

/-- The executor with preemption disabled. -/
def unpreempted (e : Executor) : Executor :=
  { e with context := { e.context with budget := { e.context.budget with slice := none } } }

private theorem entry_mirrors {e : Executor} {f : FunctionId} (entry : e.callStack = [⟨f, ⟨0⟩, none⟩]) (w : World) :
    ∃ m n, (e.machine w).step = .inl m ∧ (e.unpreempted.machine w.prompt).step = .inl n ∧ Machine.Mirrors m n := by
  refine ⟨_, _, machine_step_entry entry w, machine_step_entry (e := e.unpreempted) entry w.prompt, ?_⟩
  exact ⟨⟨rfl, rfl, rfl, rfl⟩, rfl, rfl, by simp [Machine.Scripted, Machine.frames], trivial⟩

/-- A call of scripts, native functions and pauses, drained until it ends, makes the calls and
comes to the outcome that it has when nothing suspends it. -/
theorem drained_of_unsuspended {w last : World} {e pending : Executor} {f : FunctionId} {args : List Value}
    {calls : List Call} {result : Except Failure (List Value)} (pushed : e.pushCall f args = (.ok (), pending))
    (reached : ∀ n, ∀ c ∈ (pending.unpreempted.machine w.prompt).involved n, c.Steady)
    (reference : Drained w.prompt pending.unpreempted 0 calls result last) :
    ∃ pauses world, Drained w pending pauses calls result world ∧ world.prompt = last := by
  have entry := callStack_of_pushCall pushed
  have waiting : pending.callStack ≠ [] := by simp [entry]
  obtain ⟨fuel, halt, rested, ran, ended, rfl, rfl, rfl⟩ := run_of_drained (e := pending.unpreempted) waiting reference
  obtain ⟨m, n, here, there, mirrors⟩ := entry_mirrors entry w
  cases fuel with
  | zero => cases ran
  | succ fuel =>
    rw [Machine.run_inl there] at ran
    obtain ⟨pauses, last', completes, core⟩ := mirrors.completes ran fun k c seen =>
      reached (k + 1) c (Machine.mem_observed_later there seen)
    have drained := Drained.of_completes waiting (.next here completes)
    have same : outcome halt last' = outcome halt rested := by
      cases halt with
      | finished => simp only [Executor.outcome, core.stack]
      | failed error => rfl
      | paused reason => rfl
    rw [same] at drained
    refine ⟨pauses, last'.core.world, ?_, core.world.symm⟩
    rw [Machine.calls, Machine.observed_inl there]
    exact drained

/-- A script that is preempted at its start and then pauses with one value, which it returns. -/
private def pausing : Proto where
  name := "pausing"
  params := 0
  regs := 2
  constants := [.function ⟨1⟩, .int 7]
  code := [.charge 1, .tick, .loadConst 0 0, .loadConst 1 1, .call 0 1 1, .ret 0 1]

private def pausingWorld : World := { functions := #[.script pausing, .builtin .pause] }

private def pausingPrompt : World := { functions := #[.script pausing, (Callable.builtin .pause).prompt] }

private def pausingExecutor : Executor :=
  { context := { stack := ⟨#[.nil, .nil, .nil, .nil], 0⟩, budget := Budget.new { budget := some 1 } } }

private def pausingCall : Executor := (pausingExecutor.pushCall ⟨0⟩ []).2

private theorem pausing_involved : ((pausingCall.unpreempted).machine pausingPrompt).involved 15 =
    List.replicate 6 (.script pausing) ++ [(Callable.builtin .pause).prompt] ++ List.replicate 2 (.script pausing) := by
  cbv

private theorem pausing_steady (n : Nat) (c : Callable)
    (seen : c ∈ ((pausingCall.unpreempted).machine pausingPrompt).involved n) : c.Steady := by
  have ran : (((pausingCall.unpreempted).machine pausingPrompt).run 15).isSome = true := by decide +kernel
  have among := Machine.observed_run ran n seen
  change c ∈ ((pausingCall.unpreempted).machine pausingPrompt).involved 15 at among
  simp only [pausing_involved, List.mem_append, List.mem_replicate, List.mem_singleton] at among
  rcases among with (⟨_, rfl⟩ | rfl) | ⟨_, rfl⟩
  · exact .inl ⟨pausing, rfl⟩
  · refine .inr fun args a answered => .inr ⟨args, ?_⟩
    exact (Except.ok.inj answered).symm
  · exact .inl ⟨pausing, rfl⟩

theorem drained_of_unsuspended_pausing : ∃ pauses world,
    Drained pausingWorld pausingCall pauses [⟨⟨0⟩, []⟩, ⟨⟨1⟩, [.int 7]⟩] (.ok [.int 7]) world ∧
      world.prompt = pausingPrompt := by
  have prompted : pausingWorld.prompt = pausingPrompt := by
    simp [World.prompt, pausingWorld, pausingPrompt, Callable.prompt]
  have ran : drain 15 pausingPrompt pausingCall.unpreempted = some (.ok .finished, pausingPrompt,
      { context := { stack := ⟨#[.int 7, .nil, .nil, .nil], 1⟩, budget := ⟨Budget.most, none, 0, 0⟩ }
        state := .finished }) := by
    cbv
  have calls : (pausingCall.unpreempted.machine pausingPrompt).calls 15 = [⟨⟨0⟩, []⟩, ⟨⟨1⟩, [.int 7]⟩] := by cbv
  have reference := Drained.finished ran
  rw [calls, ← prompted] at reference
  have pushed : pausingExecutor.pushCall ⟨0⟩ [] = (.ok (), pausingCall) := rfl
  have reached := pausing_steady
  rw [← prompted] at reached
  rw [← prompted]
  exact drained_of_unsuspended pushed reached reference

end Executor

end CoopScript
