import CoopScript.Proofs.PreemptionCount
import CoopScript.Proofs.SuspensionTransparency
import CoopScript.Script.Accounting

/-! How often a call is preempted. What a call of scripts and native functions does about its
budget, the charges and the ticks on its way, does not depend on the budget; so a drained run is
set beside the run without preemption, whose accounting alone tells where the first is paused. Of two
budgets the one that leaves more to each drain is never behind by more than the pause it saved. -/

namespace CoopScript

namespace Budget

/-- How often accounting that begins with this budget is preempted. After each time it goes on with
a full one. -/
def pauses : Budget → List Instr → Nat
  | _, [] => 0
  | b, instr :: rest =>
    match instr with
    | .charge cost => pauses (b.charge cost) rest
    | .tick => if b.isExhausted then pauses b.recordPreemption.refill rest + 1 else pauses b rest
    | _ => pauses b rest

theorem pauses_unlimited {b : Budget} (unlimited : b.slice = none) (accounts : List Instr) : b.pauses accounts = 0 := by
  have disabled : b.isEnabled = false := by simp [isEnabled, unlimited]
  induction accounts with
  | nil => rfl
  | cons instr rest ih =>
    cases instr with
    | charge cost => simpa [pauses, charge, disabled] using ih
    | tick => simpa [pauses, isExhausted, disabled] using ih
    | _ => exact ih

/-- How much more can be taken before the budget is spent. -/
def slack (b : Budget) : Int := b.remaining - b.lowWaterMark

/-- A budget that leaves less to each drain than the other one does. -/
structure Tighter (b b' : Budget) : Prop where
  slices : ∃ n n', b.slice = some n ∧ b'.slice = some n' ∧ n ≤ n'
  mark : b'.lowWaterMark ≤ b.lowWaterMark
  within : b.remaining ≤ b.refill.remaining

namespace Tighter

variable {b b' : Budget}

theorem enabled (tighter : b.Tighter b') : b.isEnabled = true ∧ b'.isEnabled = true := by
  obtain ⟨n, n', here, there, -⟩ := tighter.slices
  simp [isEnabled, here, there]

theorem isExhausted (tighter : b.Tighter b') :
    (b.isExhausted = true ↔ b.slack ≤ 0) ∧ (b'.isExhausted = true ↔ b'.slack ≤ 0) := by
  obtain ⟨here, there⟩ := tighter.enabled
  simp only [Budget.isExhausted, here, there, Bool.true_and, decide_eq_true_eq, slack]
  omega

theorem charge (tighter : b.Tighter b') (cost : Nat) : (b.charge cost).Tighter (b'.charge cost) := by
  obtain ⟨here, there⟩ := tighter.enabled
  simp only [Budget.charge, here, there, if_true]
  refine ⟨tighter.slices, tighter.mark, ?_⟩
  have within := tighter.within
  obtain ⟨n, n', slice, -⟩ := tighter.slices
  have low : least ≤ 0 := by decide
  have high : 0 ≤ most := by decide
  simp only [refill, slice] at within ⊢
  omega

theorem slack_charge (tighter : b.Tighter b') (cost : Nat) (less : b.slack ≤ b'.slack) :
    (b.charge cost).slack ≤ (b'.charge cost).slack := by
  obtain ⟨here, there⟩ := tighter.enabled
  have mark := tighter.mark
  simp only [Budget.charge, here, there, if_true, slack] at less ⊢
  omega

theorem refill (tighter : b.Tighter b') : b.recordPreemption.refill.Tighter b'.recordPreemption.refill :=
  ⟨tighter.slices, tighter.mark, Int.le_refl _⟩

theorem refill_left (tighter : b.Tighter b') : b.recordPreemption.refill.Tighter b' :=
  ⟨tighter.slices, tighter.mark, Int.le_refl _⟩

theorem refill_right (tighter : b.Tighter b') : b.Tighter b'.recordPreemption.refill :=
  ⟨tighter.slices, tighter.mark, tighter.within⟩

/-- A full budget leaves at least what the other one leaves, however much that still is. -/
theorem slack_refill (tighter : b.Tighter b') : b.slack ≤ b'.recordPreemption.refill.slack := by
  have within := tighter.within
  have mark := tighter.mark
  obtain ⟨n, n', here, there, less⟩ := tighter.slices
  simp only [slack, recordPreemption, Budget.refill, here, there] at within ⊢
  omega

/-- The wider budget is behind by one pause at most, and only where less is left of it. -/
theorem pauses_le (tighter : b.Tighter b') (accounts : List Instr) :
    b'.pauses accounts ≤ b.pauses accounts + 1 ∧ (b.slack ≤ b'.slack → b'.pauses accounts ≤ b.pauses accounts) := by
  induction accounts generalizing b b' with
  | nil => exact ⟨Nat.zero_le _, fun _ => Nat.le_refl _⟩
  | cons instr rest ih =>
    cases instr with
    | charge cost =>
      obtain ⟨behind, even⟩ := ih (tighter.charge cost)
      exact ⟨behind, fun less => even (tighter.slack_charge cost less)⟩
    | tick =>
      obtain ⟨here, there⟩ := tighter.isExhausted
      simp only [pauses]
      by_cases spent : b.isExhausted = true
      · by_cases spent' : b'.isExhausted = true
        · rw [if_pos spent, if_pos spent']
          have even := (ih tighter.refill).2 tighter.refill_left.slack_refill
          exact ⟨by omega, fun _ => by omega⟩
        · rw [if_pos spent, if_neg spent']
          have behind := (ih tighter.refill_left).1
          exact ⟨by omega, fun _ => by omega⟩
      · by_cases spent' : b'.isExhausted = true
        · rw [if_neg spent, if_pos spent']
          have even := (ih tighter.refill_right).2 tighter.slack_refill
          refine ⟨by omega, fun less => ?_⟩
          have := here.not.mp spent
          have := there.mp spent'
          omega
        · rw [if_neg spent, if_neg spent']
          exact ih tighter
    | _ => exact ih tighter

end Tighter

end Budget

namespace Core

/-- An operation that has nothing to do with the budget. -/
def Blind {α : Type} (op : CoreM α) : Prop :=
  ∀ (c : Core) (b : Budget), op (c.withBudget b) = ((op c).1, (op c).2.withBudget b)

namespace Blind

theorem of_local {α : Type} {op : CoreM α} (stacked : Local op) : Blind op := by
  intro c b
  rw [stacked c (c.withBudget b) rfl, stacked c c rfl]
  rfl

theorem onWorld {α : Type} (op : WorldM α) : Blind (onWorld op) := fun _ _ => rfl

theorem bind {α β : Type} {op : CoreM α} {next : α → CoreM β} (first : Blind op)
    (rest : ∀ (c : Core) a, (op c).1 = .ok a → Blind (next a)) : Blind (op >>= next) := by
  intro c b
  have later := rest c
  simp only [bind_apply, first c b]
  rcases ran : op c with ⟨_ | a, after⟩ <;> simp only [ran] at later
  · rfl
  · exact later a rfl after b

end Blind

end Core

open CoopScript.Core in
theorem Callable.Native.invoke_blind {called : Callable} (native : called.Native) (f : FunctionId) (w : Window) :
    Blind (called.invoke f w) := by
  refine (Blind.of_local .getStack).bind fun _ s _ => ?_
  cases called with
  | script p => cases native
  | lines file formats => cases native
  | builtin b =>
    refine (Blind.onWorld _).bind fun c a answered => ?_
    exact .of_local (World.invoke_answers native _ c.world a answered).perform_local
  | «matches» cursor =>
    refine (Blind.onWorld _).bind fun _ _ _ => ?_
    exact .of_local (Action.Immediate.perform_local (.inr ⟨_, rfl⟩))
  | host h =>
    refine (Blind.onWorld _).bind fun c a answered => ?_
    exact .of_local (World.action_answers native _ c.world a answered).perform_local

namespace Activity

/-- The accounting that is about to be done, if any. -/
def account? (world : World) : Activity → Option Instr
  | .running f _ pc => ((world.proto? f).bind (·.code[pc]?)).filter Instr.isAccounting
  | .returned | .dispatch _ _ | .enter _ _ | .resume _ _ _ => none

variable {a : Activity} {c : Core}

/-- Whatever is no accounting comes to the same with any budget. -/
theorem step_blind (sound : a.Sound c) (steady : ∀ f, a.function? = some f → (c.world.callable f).Steady)
    (plain : a.account? c.world = none) (b : Budget) :
    a.step (c.withBudget b) = ((a.step c).1, (a.step c).2.withBudget b) := by
  cases a with
  | returned => rfl
  | dispatch r w =>
    have served : Core.Blind (r.serve w) := by
      intro c b
      rw [r.serve_local w c (c.withBudget b) ⟨rfl, rfl⟩ rfl, r.serve_local w c c ⟨rfl, rfl⟩ rfl]
      rfl
    exact (served.bind fun _ a _ => .of_local (.pure (Move.go a))) c b
  | enter f w =>
    rw [step_enter, step_enter, Core.withBudget_world]
    rcases steady f rfl with ⟨p, script⟩ | native
    · rw [script]
      have stacked : Core.Local ((Callable.script p).invoke f w) :=
        Core.Local.getStack.bind fun _ => (p.enter_local w).bind fun _ => .pure _
      exact Core.Blind.of_local stacked c b
    · exact native.invoke_blind f w c b
  | resume f w s =>
    obtain ⟨p, found⟩ := Option.isSome_iff_exists.mp sound
    have script := World.proto?_eq_some.mp found
    rw [step_resume, step_resume, Core.withBudget_world, script]
    have stacked : Core.Local ((Callable.script p).resume f w s) := by
      refine Core.Local.getStack.bind fun _ => ?_
      cases s with
      | script pc pending => exact (p.resume_local w pending).bind fun _ => .pure _
      | _ => exact .throw _
    exact Core.Blind.of_local stacked c b
  | running f w pc =>
    obtain ⟨p, found, -⟩ := sound
    have script := World.proto?_eq_some.mp found
    rw [step_running script, step_running (c := c.withBudget b) script]
    have none : ∀ instr, p.code[pc]? = some instr → instr.isAccounting = false := by
      intro instr here
      simpa [account?, found, here] using plain
    rw [Proto.step_plain _ none, Proto.step_plain _ none]
    rfl

/-- What is no accounting does not suspend, and leaves only scripts waiting. -/
theorem step_sound (sound : a.Sound c) (steady : ∀ f, a.function? = some f → (c.world.callable f).Steady)
    (plain : a.account? c.world = none) {move : Move} (moved : (a.step c).1 = .ok move) : move.Sound (a.step c).2 := by
  cases a with
  | returned =>
    cases moved
    trivial
  | dispatch r w => exact dispatch_sound moved
  | enter f w =>
    rw [step_enter] at moved ⊢
    rcases steady f rfl with ⟨p, script⟩ | native
    · rw [script] at moved ⊢
      exact Callable.invoke_script_sound (World.proto?_eq_some.mpr script) moved
    · cases native.invoke_returned f w moved
      trivial
  | resume f w s =>
    obtain ⟨p, found⟩ := Option.isSome_iff_exists.mp sound
    rw [step_resume, World.proto?_eq_some.mp found] at moved ⊢
    exact Callable.resume_script_sound found moved
  | running f w pc =>
    obtain ⟨p, found, framed⟩ := sound
    have none : ∀ instr, p.code[pc]? = some instr → instr.isAccounting = false := by
      intro instr here
      simpa [account?, found, here] using plain
    rw [step_running (World.proto?_eq_some.mp found), Proto.step_plain _ none] at moved ⊢
    exact Proto.stepOf_sound found framed moved

end Activity

namespace Machine

/-- The accounting on the way. -/
def accounts (n : Nat) (m : Machine) : List Instr := m.observed (fun m => (m.activity.account? m.core.world).toList) n

/-- A machine of scripts without a budget, in a drain that nothing can suspend. -/
structure Unhindered (m : Machine) : Prop where
  scripted : m.Scripted
  sound : m.activity.Sound m.core
  draining : m.core.context.draining = true
  unlimited : m.core.context.budget.slice = none

/-- The machine that has come to the same point with a budget. Which of its frames have been saved
before may be otherwise. -/
structure Beside (b : Budget) (m n : Machine) : Prop where
  core : m.core = n.core.withBudget b
  activity : m.activity = n.activity
  frames : m.frames = n.frames

variable {b : Budget} {m n : Machine}

theorem Beside.scripted (beside : Beside b m n) (unhindered : n.Unhindered) : m.Scripted := by
  intro frame member
  rw [beside.core]
  exact unhindered.scripted frame (beside.frames ▸ member)

theorem Beside.call (beside : Beside b m n) : m.call = n.call := by
  simp only [Machine.call, beside.activity, beside.core, Core.withBudget_stack]

/-- Two machines that have come to the same point, with one of them unhindered. -/
def Paces (b : Budget) (m n : Machine) : Prop := Beside b m n ∧ n.Unhindered

/-- Two runs that have come to the same end, which is no pause. -/
def Concur (halt : Halt) (m n : Machine) : Prop :=
  (∀ reason, halt ≠ .paused reason) ∧ m.core = n.core.withBudget m.core.context.budget

theorem after_paces (frames : m.frames = n.frames) {result : Except Failure Move} {c : Core} (b' : Budget)
    (scripted : n.Scripted) (kept : n.core.Keeps c) (draining : n.core.context.draining = true)
    (unlimited : n.core.context.budget.slice = none) (sound : ∀ move, result = .ok move → move.Sound c) :
    Lockstep (Paces b') Concur (m.after (result, c.withBudget b')) (n.after (result, c)) := by
  have there : ({ n with core := c }).Scripted := by
    intro frame member
    change (c.world.proto? frame.function).isSome
    rw [kept.code]
    exact scripted frame member
  have here : ({ m with core := c.withBudget b' }).Scripted := fun frame member =>
    there frame (frames ▸ member)
  have draining := kept.draining.trans draining
  have unlimited := kept.slice.trans unlimited
  rcases result with e | (a | ⟨frame, r, w⟩ | ⟨reason, frame⟩)
  · simp only [after, here.fail_eq, there.fail_eq]
    exact .rested ⟨by simp, rfl⟩
  · exact .moved ⟨⟨rfl, rfl, frames⟩, there, sound _ rfl, draining, unlimited⟩
  · refine .moved ⟨⟨rfl, rfl, congrArg (frame :: ·) frames⟩, ?_, trivial, draining, unlimited⟩
    intro other member
    rcases List.mem_cons.mp member with rfl | member
    · exact sound _ rfl
    · exact there other member
  · exact (sound _ rfl).elim

theorem returned_paces (beside : Beside b m n) (unhindered : n.Unhindered) (returned : n.activity = .returned) :
    Lockstep (Paces b) Concur m.step n.step := by
  have here : m.activity = .returned := beside.activity.trans returned
  have budget : m.core.context.budget = b := by rw [beside.core, Core.withBudget_budget]
  cases waiting : n.frames with
  | nil =>
    rw [step_finished returned waiting, step_finished here (beside.frames.trans waiting)]
    exact .rested ⟨by simp, budget ▸ beside.core⟩
  | cons frame rest =>
    have script := unhindered.scripted frame (waiting ▸ List.mem_cons_self)
    have resumable := World.isResumable_of_proto? script
    obtain ⟨callers, pending, same, moved⟩ := step_returned returned waiting (.inr resumable)
    obtain ⟨callers', pending', same', moved'⟩ :=
      step_returned here (beside.frames.trans waiting) (.inr (by rw [beside.core]; exact resumable))
    rw [moved, moved']
    refine .moved ⟨⟨beside.core, rfl, same'.trans same.symm⟩, ?_, ?_, unhindered.draining, unhindered.unlimited⟩
    · intro other member
      exact unhindered.scripted other (waiting ▸ List.mem_cons_of_mem _ (same ▸ member))
    · simp only [Frame.activity]
      cases frame.state with
      | none => trivial
      | some s => exact script

/-- Where no accounting is done the budget stays as it is. -/
theorem plain_paces (beside : Beside b m n) (unhindered : n.Unhindered)
    (steady : ∀ f, n.activity.function? = some f → (n.core.world.callable f).Steady)
    (plain : n.activity.account? n.core.world = none) : Lockstep (Paces b) Concur m.step n.step := by
  by_cases returned : n.activity = .returned
  · exact returned_paces beside unhindered returned
  · rw [step_working beside.activity returned, step_working rfl returned, beside.core,
      n.activity.step_blind unhindered.sound steady plain b]
    exact after_paces beside.frames b unhindered.scripted (n.activity.step_keeps n.core) unhindered.draining
      unhindered.unlimited fun move moved => n.activity.step_sound unhindered.sound steady plain moved

/-- A machine whose script is at the given accounting. -/
inductive Accounting (m : Machine) (instr : Instr) : Prop where
  | at {f : FunctionId} {w : Window} {pc : Nat} {p : Proto} (running : m.activity = .running f w pc)
      (found : m.core.world.proto? f = some p) (framed : p.Framed w m.core.context.stack)
      (here : p.code[pc]? = some instr)

/-- What a machine is about to do about its budget. -/
theorem Unhindered.account_cases (unhindered : n.Unhindered) : n.activity.account? n.core.world = none ∨
    (∃ cost, n.activity.account? n.core.world = some (.charge cost) ∧ n.Accounting (.charge cost)) ∨
    n.activity.account? n.core.world = some .tick ∧ n.Accounting .tick := by
  have sound := unhindered.sound
  cases active : n.activity with
  | returned | dispatch _ _ | enter _ _ | resume _ _ _ => exact .inl rfl
  | running f w pc =>
    rw [active] at sound
    obtain ⟨p, found, framed⟩ := sound
    rcases p.place_cases pc with plain | ⟨cost, here⟩ | here
    · refine .inl ?_
      simp only [Activity.account?, found, Option.bind_some, Option.filter_eq_none_iff, Bool.not_eq_true]
      exact plain
    · exact .inr (.inl ⟨cost, by simp [Activity.account?, found, here, Instr.isAccounting], .at active found framed here⟩)
    · exact .inr (.inr ⟨by simp [Activity.account?, found, here, Instr.isAccounting], .at active found framed here⟩)

/-- Accounting changes nothing in a run without a budget. -/
theorem Unhindered.step_accounting (unhindered : n.Unhindered) {f : FunctionId} {w : Window} {pc : Nat} {p : Proto}
    (running : n.activity = .running f w pc) (found : n.core.world.proto? f = some p) {instr : Instr}
    (here : p.code[pc]? = some instr) (accounting : instr.isAccounting = true) :
    n.step = n.after (.ok (.go (.running f w (pc + 1))), n.core) := by
  rw [step_working running (by simp), Activity.step_running (World.proto?_eq_some.mp found),
    Proto.step_unmetered _ unhindered.unlimited, here, Proto.effect_accounting accounting]
  rfl

theorem charge_paces (beside : Beside b m n) (unhindered : n.Unhindered) {cost : Nat}
    (at_charge : n.Accounting (.charge cost)) : Lockstep (Paces (b.charge cost)) Concur m.step n.step := by
  obtain @⟨f, w, pc, p, running, found, framed, here⟩ := at_charge
  have found' : m.core.world.proto? f = some p := by rw [beside.core]; exact found
  rw [unhindered.step_accounting running found here rfl, step_working (beside.activity.trans running) (by simp),
    Activity.step_running (World.proto?_eq_some.mp found'), Proto.step_charge _ here, beside.core]
  refine after_paces beside.frames (b.charge cost) unhindered.scripted (.refl _) unhindered.draining unhindered.unlimited ?_
  intro move moved
  cases moved
  exact ⟨p, found, framed⟩

theorem tick_paces (beside : Beside b m n) (unhindered : n.Unhindered) (at_tick : n.Accounting .tick)
    (unspent : b.isExhausted = false) : Lockstep (Paces b) Concur m.step n.step := by
  obtain @⟨f, w, pc, p, running, found, framed, here⟩ := at_tick
  have found' : m.core.world.proto? f = some p := by rw [beside.core]; exact found
  rw [unhindered.step_accounting running found here rfl, step_working (beside.activity.trans running) (by simp),
    Activity.step_running (World.proto?_eq_some.mp found'), Proto.step_tick _ here, beside.core,
    Core.withBudget_budget, unspent]
  refine after_paces beside.frames b unhindered.scripted (.refl _) unhindered.draining unhindered.unlimited ?_
  intro move moved
  cases moved
  exact ⟨p, found, framed⟩

/-- A spent budget pauses the call, and the next drain takes it past the tick. -/
theorem tick_pauses (beside : Beside b m n) (unhindered : n.Unhindered) (at_tick : n.Accounting .tick)
    (spent : b.isExhausted = true) : ∃ between, m.Pauses between ∧
      Lockstep (Paces b.recordPreemption.refill) Concur between.step n.step := by
  obtain @⟨f, w, pc, p, running, found, framed, here⟩ := at_tick
  have script := World.proto?_eq_some.mp found
  have halted : m.step = .inr (.paused .preempted,
      { core := n.core.withBudget b.recordPreemption, pending := ⟨f, w, some (.script (pc + 1) none)⟩ :: m.frames }) := by
    have scripted : ({ m with core := n.core.withBudget b.recordPreemption }).Scripted := fun frame member =>
      unhindered.scripted frame (beside.frames ▸ member)
    rw [step_working (beside.activity.trans running) (by simp), beside.core,
      Activity.step_running (c := n.core.withBudget b) script, Proto.step_tick _ here, Core.withBudget_budget, if_pos spent]
    exact congrArg Sum.inr (scripted.suspend_eq unhindered.draining .preempted _)
  obtain ⟨callers, pending, rest, taken⟩ := step_returned
    (m := restarted
      { core := n.core.withBudget b.recordPreemption, pending := ⟨f, w, some (.script (pc + 1) none)⟩ :: m.frames })
    rfl rfl (.inr (World.isResumable_of_proto? (Option.isSome_iff_exists.mpr ⟨p, found⟩)))
  refine ⟨_, ⟨.preempted, _, halted, taken, rfl⟩, ?_⟩
  -- the script finds its frame as it left it
  have placed : p.resume w none (n.core.withBudget b.recordPreemption.refill) =
      (.ok (), n.core.withBudget b.recordPreemption.refill) := by
    simp only [Proto.resume, Core.onStack_apply, Core.withBudget_stack, framed.setTop]
    rfl
  have resumed : (Activity.resume f w (.script (pc + 1) none)).step (n.core.withBudget b.recordPreemption.refill) =
      (.ok (.go (.running f w (pc + 1))), n.core.withBudget b.recordPreemption.refill) := by
    rw [Activity.step_resume, Core.withBudget_world, script]
    simp only [Callable.resume, Core.bind_apply, Core.getStack_apply, placed]
    rfl
  have full (pending : List Frame) : (restarted { core := n.core.withBudget b.recordPreemption, pending }).core =
      n.core.withBudget b.recordPreemption.refill := by
    simp only [restarted, Core.withBudget, ← unhindered.draining]
  rw [unhindered.step_accounting running found here rfl, step_working rfl (by simp [Frame.activity])]
  simp only [full, Frame.activity, resumed]
  refine after_paces (m := ⟨_, _, callers, pending⟩) (rest.trans beside.frames) _ unhindered.scripted (.refl _)
    unhindered.draining unhindered.unlimited ?_
  intro move moved
  cases moved
  exact ⟨p, found, framed⟩

/-- A call with a budget comes to what it comes to without one, and its pauses are those that the
budget makes of the accounting. -/
theorem Paces.completes (paces : Paces b m n) {fuel : Nat} {halt : Halt} {last : Machine}
    (ran : n.run fuel = some (halt, last)) (steady : ∀ k, ∀ c ∈ n.involved k, c.Steady) :
    ∃ last', m.Completes (b.pauses (n.accounts fuel)) (n.calls fuel) halt last' ∧
      last'.core = last.core.withBudget last'.core.context.budget := by
  induction fuel generalizing b m n with
  | zero => cases ran
  | succ fuel ih =>
    obtain ⟨beside, unhindered⟩ := paces
    have now (f : FunctionId) (active : n.activity.function? = some f) : (n.core.world.callable f).Steady :=
      steady 1 _ (mem_involved active 0)
    -- what remains after a step of both, with the budget it leaves
    have onward {b' : Budget} {between : Machine} (together : Lockstep (Paces b') Concur between.step n.step) :
        ∃ rest accounts last', between.Completes (b'.pauses accounts) (between.call ++ rest) halt last' ∧
          n.calls (fuel + 1) = n.call ++ rest ∧
          n.accounts (fuel + 1) = (n.activity.account? n.core.world).toList ++ accounts ∧
          last'.core = last.core.withBudget last'.core.context.budget := by
      generalize here : between.step = result at together
      generalize there : n.step = result' at together
      cases together with
      | moved paces =>
        rw [run_inl there] at ran
        obtain ⟨last', rest, core⟩ := ih paces ran fun k c seen => steady (k + 1) c (mem_observed_later there seen)
        exact ⟨_, _, last', .next here rest, observed_inl there fuel, observed_inl there fuel, core⟩
      | rested concur =>
        rw [run_inr there] at ran
        cases ran
        refine ⟨[], [], _, ?_, (observed_inr there fuel).trans (List.append_nil _).symm,
          (observed_inr there fuel).trans (List.append_nil _).symm, concur.2⟩
        rw [List.append_nil]
        exact .stop here concur.1
    rcases unhindered.account_cases with plain | ⟨cost, charge, at_charge⟩ | ⟨tick, at_tick⟩
    · obtain ⟨rest, accounts, last', completes, calls, same, core⟩ := onward (plain_paces beside unhindered now plain)
      rw [calls, same, plain, ← beside.call]
      exact ⟨last', completes, core⟩
    · obtain ⟨rest, accounts, last', completes, calls, same, core⟩ := onward (charge_paces beside unhindered at_charge)
      rw [calls, same, charge, ← beside.call]
      exact ⟨last', completes, core⟩
    · cases spent : b.isExhausted with
      | false =>
        obtain ⟨rest, accounts, last', completes, calls, same, core⟩ := onward (tick_paces beside unhindered at_tick spent)
        rw [calls, same, tick, ← beside.call]
        refine ⟨last', ?_, core⟩
        simpa [Budget.pauses, spent] using completes
      | true =>
        obtain ⟨between, ⟨reason, paused, halted, taken, silent⟩, together⟩ := tick_pauses beside unhindered at_tick spent
        obtain ⟨rest, accounts, last', completes, calls, same, core⟩ := onward together
        rw [silent] at completes
        rw [calls, same, tick, ← beside.call]
        refine ⟨last', ?_, core⟩
        simp only [Option.toList_some, List.singleton_append, Budget.pauses, spent, if_true]
        exact .pause halted (.next taken completes)

end Machine

namespace Executor

/-- The executor with other limits for its drains. -/
def limited (e : Executor) (slice : Option Nat) (mark : Int) : Executor :=
  { e with context := { e.context with budget := { e.context.budget with slice, lowWaterMark := mark }.refill } }

/-- A new executor has the limits of its settings. -/
theorem new_limited (config : EngineConfig) (p : Preemption) :
    Executor.new { config with preemption := p } =
      (Executor.new config).map (·.limited p.budget p.lowWaterMark) := by
  simp only [Executor.new]
  cases RegisterStack.new config.stackCapacity <;> rfl

/-- A call has one number of pauses. -/
theorem Drained.pauses_unique {w last last' : World} {e : Executor} {pauses pauses' : Nat} {calls calls' : List Call}
    {result result' : Except Failure (List Value)} (drained : Drained w e pauses calls result last)
    (drained' : Drained w e pauses' calls' result' last') : pauses' = pauses := by
  induction drained generalizing pauses' calls' result' last' with
  | finished ran =>
    cases drained' with
    | finished => rfl
    | failed => rfl
    | paused ran' rest => cases drain_unique ran ran'
  | failed ran =>
    cases drained' with
    | finished => rfl
    | failed => rfl
    | paused ran' rest => cases drain_unique ran ran'
  | paused ran rest ih =>
    cases drained' with
    | finished ran' => cases drain_unique ran ran'
    | failed ran' => cases drain_unique ran ran'
    | paused ran' rest' =>
      cases drain_unique ran ran'
      rw [ih rest']

variable {w last : World} {e pending : Executor} {f : FunctionId} {args : List Value} {mark : Int}

/-- A run without preemption is no pause, and it tells how the call goes with any limits. -/
theorem completes_limited (entry : pending.callStack = [⟨f, ⟨0⟩, none⟩]) {fuel : Nat} {halt : Halt} {rested : Machine}
    (ran : ((pending.limited none mark).machine w).run fuel = some (halt, rested))
    (steady : ∀ n, ∀ c ∈ ((pending.limited none mark).machine w).involved n, c.Steady) :
    (∀ reason, halt ≠ .paused reason) ∧ ∃ accounts, ∀ slice mark', ∃ last',
      ((pending.limited slice mark').machine w).Completes
        (((pending.limited slice mark').machine w).core.context.budget.pauses accounts)
        (((pending.limited none mark).machine w).calls fuel) halt last' ∧
      last'.core = rested.core.withBudget last'.core.context.budget := by
  cases fuel with
  | zero => cases ran
  | succ fuel =>
    have there := machine_step_entry (e := pending.limited none mark) entry w
    rw [Machine.run_inl there] at ran
    have reached (slice : Option Nat) (mark' : Int) : ∃ last',
        ((pending.limited slice mark').machine w).Completes
          (((pending.limited slice mark').machine w).core.context.budget.pauses
            (Machine.accounts fuel { core := ((pending.limited none mark).machine w).core, activity := .enter f ⟨0⟩ }))
          (((pending.limited none mark).machine w).calls (fuel + 1)) halt last' ∧
        last'.core = rested.core.withBudget last'.core.context.budget := by
      have here := machine_step_entry (e := pending.limited slice mark') entry w
      have paces : Machine.Paces ((pending.limited slice mark').machine w).core.context.budget
          { core := ((pending.limited slice mark').machine w).core, activity := .enter f ⟨0⟩ }
          { core := ((pending.limited none mark).machine w).core, activity := .enter f ⟨0⟩ } :=
        ⟨⟨rfl, rfl, rfl⟩, by simp [Machine.Scripted, Machine.frames], trivial, rfl, rfl⟩
      obtain ⟨last', completes, core⟩ := paces.completes ran fun k c seen =>
        steady (k + 1) c (Machine.mem_observed_later there seen)
      refine ⟨last', ?_, core⟩
      rw [Machine.calls, Machine.observed_inl there]
      exact .next here completes
    refine ⟨?_, _, reached⟩
    obtain ⟨last', completes, -⟩ := reached none mark
    obtain ⟨_, _, _, _, ended, _⟩ := completes.reaches
    exact ended

theorem tighter_limited {b₁ b₂ : Nat} {mark₁ mark₂ : Int} (more : b₁ ≤ b₂) (lower : mark₂ ≤ mark₁) (pending : Executor)
    (w : World) : ((pending.limited (some b₁) mark₁).machine w).core.context.budget.Tighter
        ((pending.limited (some b₂) mark₂).machine w).core.context.budget ∧
      ((pending.limited (some b₁) mark₁).machine w).core.context.budget.slack ≤
        ((pending.limited (some b₂) mark₂).machine w).core.context.budget.slack := by
  refine ⟨⟨⟨b₁, b₂, rfl, rfl, more⟩, lower, Int.le_refl _⟩, ?_⟩
  simp only [machine, limited, Budget.slack, Budget.refill]
  omega

/-- A call of scripts and native functions that ends without preemption ends alike with any limits.
It is never paused without them, and the more a drain may spend the less often it is paused. -/
theorem pauses_antitone {pauses : Nat} {calls : List Call} {result : Except Failure (List Value)}
    (pushed : e.pushCall f args = (.ok (), pending))
    (steady : ∀ n, ∀ c ∈ ((pending.limited none mark).machine w).involved n, c.Steady)
    (reference : Drained w (pending.limited none mark) pauses calls result last) :
    ∃ count : Option Nat → Int → Nat,
      (∀ slice mark, Drained w (pending.limited slice mark) (count slice mark) calls result last ∧
        ∀ n calls' result' last', Drained w (pending.limited slice mark) n calls' result' last' → n = count slice mark) ∧
      (∀ mark, count none mark = 0) ∧
      ∀ b₁ b₂ mark₁ mark₂, b₁ ≤ b₂ → mark₂ ≤ mark₁ → count (some b₂) mark₂ ≤ count (some b₁) mark₁ := by
  have entry := callStack_of_pushCall pushed
  have waiting (slice : Option Nat) (mark : Int) : (pending.limited slice mark).callStack ≠ [] := by
    simp [limited, entry]
  obtain rfl : pauses = 0 := by
    cases reference with
    | finished => rfl
    | failed => rfl
    | paused ran rest =>
      obtain ⟨reason, rested, ran, -⟩ := run_of_paused ran
      exact absurd rfl ((completes_limited entry ran steady).1 reason)
  obtain ⟨fuel, halt, rested, ran, ended, rfl, rfl, rfl⟩ := run_of_drained (waiting none mark) reference
  obtain ⟨-, accounts, reached⟩ := completes_limited entry ran steady
  refine ⟨fun slice mark => ((pending.limited slice mark).machine w).core.context.budget.pauses accounts, ?_, ?_, ?_⟩
  · intro slice mark'
    obtain ⟨last', completes, core⟩ := reached slice mark'
    have drained := Drained.of_completes (waiting slice mark') completes
    have world : last'.core.world = rested.core.world := by rw [core, Core.withBudget_world]
    have same : outcome halt last' = outcome halt rested := by
      cases halt with
      | finished => rw [outcome, outcome, core, Core.withBudget_stack]
      | failed error => rfl
      | paused reason => rfl
    rw [same, world] at drained
    exact ⟨drained, fun _ _ _ _ other => drained.pauses_unique other⟩
  · intro mark'
    exact Budget.pauses_unlimited rfl accounts
  · intro b₁ b₂ mark₁ mark₂ more lower
    obtain ⟨tighter, less⟩ := tighter_limited more lower pending w
    exact (tighter.pauses_le accounts).2 less

private def naming : Proto where
  name := "naming"
  params := 0
  regs := 2
  constants := [.function ⟨1⟩]
  code := instrument [.loadConst 0 0, .loadNil 1, .call 0 1 1, .jump 4, .ret 0 1] {}

private def namingWorld : World := { functions := #[.script naming, .builtin .typeName] }

private def idle : Executor := { context := { stack := ⟨#[.nil, .nil, .nil], 0⟩, budget := Budget.new {} } }

private def namingCall : Executor := (idle.pushCall ⟨0⟩ []).2

private theorem naming_steady (n : Nat) (c : Callable)
    (seen : c ∈ ((namingCall.limited none 0).machine namingWorld).involved n) : c.Steady := by
  have ran : (((namingCall.limited none 0).machine namingWorld).run 20).isSome = true := by decide +kernel
  have among := Machine.observed_run ran n seen
  have involved : ((namingCall.limited none 0).machine namingWorld).involved 20 =
      List.replicate 6 (.script naming) ++ [.builtin .typeName] ++ List.replicate 7 (.script naming) := by cbv
  change c ∈ ((namingCall.limited none 0).machine namingWorld).involved 20 at among
  simp only [involved, List.mem_append, List.mem_replicate, List.mem_singleton] at among
  rcases among with (⟨_, rfl⟩ | rfl) | ⟨_, rfl⟩
  · exact .inl ⟨naming, rfl⟩
  · exact .inr rfl
  · exact .inl ⟨naming, rfl⟩

/-- The charges of this call are 7, 1 and 1, with a tick after each. -/
theorem pauses_antitone_naming : ∃ count : Option Nat → Int → Nat,
    (∀ slice mark, Drained namingWorld (namingCall.limited slice mark) (count slice mark)
      [⟨⟨0⟩, []⟩, ⟨⟨1⟩, [.nil]⟩] (.ok [.str "nil"]) namingWorld) ∧
    count none 0 = 0 ∧ count (some 9) 0 ≤ count (some 1) 0 := by
  have pushed : idle.pushCall ⟨0⟩ [] = (.ok (), namingCall) := rfl
  have ran : drain 20 namingWorld (namingCall.limited none 0) = some (.ok .finished, namingWorld,
      { context := { stack := ⟨#[.str "nil", .nil, .nil], 1⟩, budget := ⟨Budget.most, none, 0, 0⟩ }
        state := .finished }) := by
    cbv
  have calls : ((namingCall.limited none 0).machine namingWorld).calls 20 = [⟨⟨0⟩, []⟩, ⟨⟨1⟩, [.nil]⟩] := by cbv
  have reference := Drained.finished ran
  rw [calls] at reference
  obtain ⟨count, drained, unpaused, antitone⟩ := pauses_antitone pushed naming_steady reference
  exact ⟨count, fun slice mark => (drained slice mark).1, unpaused 0, antitone 1 9 0 0 (by decide) (by decide)⟩

end Executor

end CoopScript
