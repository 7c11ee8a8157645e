import CoopScript.Host
import CoopScript.Proofs.CallExtent
import Mathlib.Logic.Relation

/-! The states of an executor. An executor is paused exactly while frames are waiting, and a drain
says that it was paused without setting the state: that frames are left then, and none otherwise,
has to follow from what functions can answer. They may answer anything here, and leave any
registers and any world behind; what they cannot do is to declare a drain begun or over. -/

namespace CoopScript

/-- What running code can make of its context: the slots stay as many, the cursor stays among
them, and whether there is a drain is not for the code to say. -/
structure Context.Admits (c d : Context) : Prop where
  draining : d.draining = c.draining
  capacity : d.stack.capacity = c.stack.capacity
  fits : c.stack.top ≤ c.stack.capacity → d.stack.top ≤ d.stack.capacity

namespace Context.Admits

theorem refl (c : Context) : c.Admits c := ⟨rfl, rfl, id⟩

theorem trans {c d e : Context} (first : c.Admits d) (rest : d.Admits e) : c.Admits e :=
  ⟨rest.draining.trans first.draining, rest.capacity.trans first.capacity, fun fits => rest.fits (first.fits fits)⟩

end Context.Admits

theorem Activity.step_admits (a : Activity) (c : Core) : c.context.Admits (a.step c).2.context := by
  have confined := a.step_confined (fun _ _ => Nat.zero_le _) c
  exact ⟨(a.step_keeps c).draining, confined.capacity, confined.fits⟩

namespace Machine

/-- What a step might come to if the function at work may answer in any way. -/
inductive Might (m : Machine) : Machine ⊕ (Halt × Machine) → Prop where
  | returned (returned : m.activity = .returned) : Might m m.step
  | answered (working : m.activity ≠ .returned) (outcome : Except Failure Move × Core)
      (admitted : m.core.context.Admits outcome.2.context) : Might m (m.after outcome)

/-- The machines that a run might pass through. -/
def Wanders : Machine → Machine → Prop := Relation.ReflTransGen fun m next => m.Might (.inl next)

theorem might_step (m : Machine) : m.Might m.step := by
  by_cases returned : m.activity = .returned
  · exact .returned returned
  · rw [step_working rfl returned]
    exact .answered returned _ (m.activity.step_admits m.core)

namespace Might

variable {m next last : Machine} {halt : Halt}

theorem moved (might : m.Might (.inl next)) : m.core.context.Admits next.core.context := by
  generalize result : Sum.inl next = moved at might
  cases might with
  | returned returned =>
    have stepped := Step.of_step result.symm
    cases stepped with
    | returned => exact .refl _
    | went working | called working => exact absurd returned working
  | answered working outcome admitted =>
    obtain ⟨answer, core⟩ := outcome
    rcases answer with _ | (_ | _ | _) <;> cases result <;> exact admitted

theorem halted (might : m.Might (.inr (halt, last))) : m.core.context.Admits last.core.context := by
  generalize result : Sum.inr (halt, last) = halted at might
  cases might with
  | returned returned =>
    have halted := Halted.of_step result.symm
    cases halted with
    | finished | refused => exact .refl _
    | failed working | stranded working | paused working => exact absurd returned working
  | answered working outcome admitted =>
    obtain ⟨answer, core⟩ := outcome
    rcases answer with _ | (_ | _ | ⟨reason, frame⟩)
    · cases result
      exact admitted
    · cases result
    · cases result
    · simp only [after, suspend] at result
      split at result <;> cases result <;> exact admitted

/-- A suspension saves at least the frame of the function that asked for it. -/
theorem saved {reason : SuspendReason} (might : m.Might (.inr (.paused reason, last))) : last.pending ≠ [] := by
  generalize result : Sum.inr (Halt.paused reason, last) = halted at might
  cases might with
  | returned =>
    obtain ⟨_, _, _, pending, _⟩ := suspended_of_paused result.symm
    rw [pending]
    exact List.cons_ne_nil _ _
  | answered working outcome admitted =>
    obtain ⟨answer, core⟩ := outcome
    rcases answer with _ | (_ | _ | ⟨_, frame⟩)
    · cases result
    · cases result
    · cases result
    · simp only [after, suspend] at result
      split at result <;> cases result
      exact List.cons_ne_nil _ _

end Might

theorem Wanders.admits {m n : Machine} (wanders : m.Wanders n) : m.core.context.Admits n.core.context := by
  induction wanders with
  | refl => exact .refl _
  | tail _ might ih => exact ih.trans might.moved

theorem wanders_of_run {m last : Machine} {halt : Halt} {fuel : Nat} (ran : m.run fuel = some (halt, last)) :
    ∃ n, m.Wanders n ∧ n.Might (.inr (halt, last)) := by
  induction fuel generalizing m with
  | zero => cases ran
  | succ fuel ih =>
    have might := m.might_step
    cases moved : m.step with
    | inl next =>
      rw [run_inl moved] at ran
      rw [moved] at might
      obtain ⟨n, wanders, rested⟩ := ih ran
      exact ⟨n, .head might wanders, rested⟩
    | inr result =>
      obtain ⟨_, _⟩ := result
      rw [run_inr moved] at ran
      cases ran
      rw [moved] at might
      exact ⟨m, .refl, might⟩

end Machine

namespace Executor

/-- How a drain of the pending call might end, and the executor after it. -/
inductive Settles (w : World) (e : Executor) : Except Failure Drain → Executor → Prop where
  | rested {m last : Machine} {halt : Halt} (wanders : (e.machine w).Wanders m)
      (might : m.Might (.inr (halt, last))) : Settles w e (e.settled halt last).1 (e.settled halt last).2

/-- The executors that come of any sequence of operations, whatever the functions that are called
do. Each drain is in a world of its own. -/
inductive History : Executor → Prop where
  | fresh {config : EngineConfig} {e : Executor} (made : Executor.new config = .ok e) : History e
  | pushed {e : Executor} (before : History e) (f : FunctionId) (args : List Value) : History (e.pushCall f args).2
  | drained {w : World} {e after : Executor} {result : Except Failure Drain} (before : History e)
      (pending : e.callStack ≠ []) (settles : e.Settles w result after) : History after
  | taken {e : Executor} (before : History e) : History e.takeResults.2

/-- What ties the fields of an executor together between two operations. -/
structure Consistent (e : Executor) : Prop where
  paused : e.state = .paused ↔ e.callStack ≠ []
  idle : e.state = .idle → e.context.stack.top = 0
  fits : e.context.stack.top ≤ e.context.stack.capacity
  resting : e.context.draining = false

variable {w v : World} {e after : Executor} {result : Except Failure Drain} {f : FunctionId} {args : List Value}

theorem Settles.of_drain (pending : e.callStack ≠ []) {fuel : Nat} (ran : drain fuel w e = some (result, v, after)) :
    e.Settles w result after := by
  obtain ⟨halt, last, rested, -, rfl, rfl⟩ := run_of_drain pending ran
  obtain ⟨n, wanders, might⟩ := Machine.wanders_of_run rested
  exact .rested wanders might

/-- A drain is an operation of a history. -/
theorem History.of_drain (history : History e) {fuel : Nat} (ran : drain fuel w e = some (result, v, after)) :
    History after := by
  by_cases idle : e.callStack = []
  · rw [drain_of_idle idle] at ran
    cases ran
    exact history
  · exact history.drained idle (.of_drain idle ran)

theorem pushCall_of_pending (pending : e.callStack ≠ []) (f : FunctionId) (args : List Value) :
    e.pushCall f args = (.error (.protocol .alreadyPaused), e) := by
  simp [pushCall, pending]

/-- A call is set up at the bottom of the emptied stack, if its arguments fit. -/
theorem pushCall_of_resting (resting : e.callStack = []) (f : FunctionId) (args : List Value) :
    e.pushCall f args =
      if e.context.stack.capacity < args.length then
        (.error (.stack (.insufficientSpace args.length e.context.stack.capacity)), e.cleared)
      else
        (.ok (),
          { context :=
              { e.context with stack := { e.context.stack.emptied.write 0 args with top := args.length } }
            callStack := [⟨f, ⟨0⟩, none⟩]
            state := .paused }) := by
  have capacity : e.context.stack.emptied.capacity = e.context.stack.capacity :=
    RegisterStack.clear_capacity e.context.stack 0 e.context.stack.top
  have placed : (⟨0⟩ : Window).pushAll args e.context.stack.emptied = RegisterStack.push args e.context.stack.emptied := rfl
  have pushed := RegisterStack.push_apply args e.context.stack.emptied
  rw [capacity, show e.context.stack.emptied.top = 0 from rfl, Nat.sub_zero, Nat.zero_add, ← placed] at pushed
  have empty : (!e.callStack.isEmpty) = false := by rw [resting]; rfl
  unfold pushCall onStack
  rw [empty]
  simp only [Bool.false_eq_true, if_false, cleared, ExceptT.run]
  rw [pushed]
  by_cases full : e.context.stack.capacity < args.length
  · simp only [full, if_true]
  · simp only [full, if_false]

namespace Consistent

theorem new {config : EngineConfig} (made : Executor.new config = .ok e) : e.Consistent := by
  simp only [Executor.new, RegisterStack.new] at made
  split at made
  · cases made
  · cases made
    exact ⟨by simp, fun _ => rfl, Nat.zero_le _, rfl⟩

theorem pushCall (consistent : e.Consistent) (f : FunctionId) (args : List Value) :
    (e.pushCall f args).2.Consistent := by
  by_cases pending : e.callStack ≠ []
  · rw [pushCall_of_pending pending]
    exact consistent
  · have resting := not_not.mp pending
    rw [pushCall_of_resting resting]
    split
    · exact ⟨consistent.paused, fun _ => rfl, Nat.zero_le _, consistent.resting⟩
    · next room =>
      refine ⟨by simp, by simp, ?_, consistent.resting⟩
      change args.length ≤ (e.context.stack.emptied.write 0 args).capacity
      have written := (e.context.stack.emptied.write_sameShape 0 args).capacity
      have emptied := RegisterStack.clear_capacity e.context.stack 0 e.context.stack.top
      rw [written, show e.context.stack.emptied.capacity = _ from emptied]
      exact Nat.not_lt.mp room

theorem takeResults (consistent : e.Consistent) : e.takeResults.2.Consistent := by
  simp only [Executor.takeResults]
  split
  · next finished =>
    have empty : e.callStack = [] := by
      by_contra pending
      have paused := consistent.paused.mpr pending
      rw [finished] at paused
      cases paused
    exact ⟨by simp [cleared, empty], fun _ => rfl, Nat.zero_le _, consistent.resting⟩
  · exact consistent

/-- However a drain ends, it leaves frames exactly if the executor is still paused. -/
theorem settles (consistent : e.Consistent) (pending : e.callStack ≠ []) (settles : e.Settles w result after) :
    after.Consistent := by
  obtain @⟨m, last, halt, wanders, might⟩ := settles
  have admits := wanders.admits.trans might.halted
  have fits : last.core.context.stack.top ≤ last.core.context.stack.capacity := admits.fits consistent.fits
  cases halt with
  | finished => exact ⟨by simp [settled], by simp [settled], fits, rfl⟩
  | failed err => exact ⟨by simp [settled], fun _ => rfl, Nat.zero_le _, rfl⟩
  | paused reason =>
    have paused : e.state = .paused := consistent.paused.mpr pending
    refine ⟨?_, ?_, fits, rfl⟩
    · change e.state = .paused ↔ last.pending ≠ []
      exact ⟨fun _ => might.saved, fun _ => paused⟩
    · intro idle
      change e.state = .idle at idle
      rw [paused] at idle
      cases idle

end Consistent

theorem History.consistent (history : History e) : e.Consistent := by
  induction history with
  | fresh made => exact .new made
  | pushed _ f args ih => exact ih.pushCall f args
  | drained _ pending settles ih => exact ih.settles pending settles
  | taken _ ih => exact ih.takeResults

/-- How an executor answers the next operation. -/
structure Lifecycle (e : Executor) : Prop where
  paused : e.state = .paused ↔ e.callStack ≠ []
  unread : e.state ≠ .finished → e.results = []
  busy : ∀ f args, (e.pushCall f args).1 = .error (.protocol .alreadyPaused) ↔ e.callStack ≠ []
  kept : ∀ f args, e.callStack ≠ [] → (e.pushCall f args).2 = e
  nothing : ∀ fuel w, e.callStack = [] → drain fuel w e = some (.error (.protocol .noPendingCall), w, e)
  leaves : ∀ w after, e.callStack ≠ [] → e.Settles w (.ok .paused) after → after.callStack ≠ []
  drops : ∀ w err after, e.callStack ≠ [] → e.Settles w (.error err) after →
    after.state = .idle ∧ after.callStack = [] ∧ after.context.stack.top = 0
  resting : e.context.draining = false
  /-- Outside a drain, a function that asks to be suspended makes what is running fail. -/
  stranded : ∀ w activity m reason frame core, Machine.Wanders { core := ⟨w, e.context⟩, activity } m →
    m.activity ≠ .returned → m.core.context.Admits core.context →
    ∃ last, m.after (.ok (.suspend reason frame), core) = .inr (.failed (.protocol .noPendingCall), last)

theorem History.lifecycle (history : History e) : e.Lifecycle := by
  have consistent := history.consistent
  refine
    { paused := consistent.paused
      unread := ?unread
      busy := ?busy
      kept := ?kept
      nothing := ?nothing
      leaves := ?leaves
      drops := ?drops
      resting := consistent.resting
      stranded := ?stranded }
  case unread =>
    intro unfinished
    simp only [results, unfinished, if_false]
  case busy =>
    intro f args
    by_cases pending : e.callStack ≠ []
    · simp only [pushCall_of_pending pending, pending, ne_eq, not_false_eq_true]
    · rw [pushCall_of_resting (not_not.mp pending)]
      split <;> simp [pending]
  case kept =>
    intro f args pending
    rw [pushCall_of_pending pending]
  case nothing =>
    intro fuel w idle
    exact drain_of_idle idle fuel w
  case leaves =>
    intro w after pending settles
    generalize paused : Except.ok Drain.paused = result at settles
    obtain @⟨_, _, halt, _, might⟩ := settles
    cases halt with
    | paused reason => exact might.saved
    | finished | failed _ => cases paused
  case drops =>
    intro w err after pending settles
    generalize failed : Except.error err = result at settles
    obtain @⟨_, _, halt, _, _⟩ := settles
    cases halt with
    | failed _ => exact ⟨rfl, rfl, rfl⟩
    | paused _ | finished => cases failed
  case stranded =>
    intro w activity m reason frame core wanders working admits
    have outside : core.context.draining = false :=
      (admits.draining.trans wanders.admits.draining).trans consistent.resting
    simp only [Machine.after, Machine.suspend, outside, Bool.false_eq_true, if_false]
    exact ⟨_, rfl⟩

private def unruly : World :=
  { functions := #[.host (.stubborn "stubborn"), .host (.mismatch "mismatch"), .host (.identity "identity")] }

private def unused : Executor := { context := { stack := ⟨#[.nil, .nil], 0⟩, budget := Budget.new {} } }

private def stuck : Executor :=
  { unused with
    callStack := [⟨⟨0⟩, ⟨0⟩, some .unit⟩]
    state := .paused
    lastReason := some .yield }

private theorem history_unused : History unused := by
  have made : Executor.new { stackCapacity := 2 } = .ok unused := rfl
  exact .fresh made

/-- A function that suspends although it cannot be resumed leaves its call pending, and the next
drain drops it. -/
theorem History.lifecycle_stuck : History stuck ∧ stuck.callStack ≠ [] ∧ stuck.state = .paused ∧
    (stuck.pushCall ⟨1⟩ []).2 = stuck ∧ ∃ after,
      drain 9 unruly stuck = some (.error (.protocol (.notSuspendable "stubborn")), unruly, after) ∧
      after.state = .idle ∧ after.callStack = [] ∧ after.context.stack.top = 0 := by
  have ran : drain 9 unruly (unused.pushCall ⟨0⟩ []).2 = some (.ok .paused, unruly, stuck) := by cbv
  have history : History stuck := .of_drain (.pushed history_unused ⟨0⟩ []) ran
  have pending : stuck.callStack ≠ [] := List.cons_ne_nil _ _
  obtain ⟨after, failed⟩ : ∃ after,
      drain 9 unruly stuck = some (.error (.protocol (.notSuspendable "stubborn")), unruly, after) := ⟨_, by cbv⟩
  have dropped := history.lifecycle.drops unruly _ after pending (.of_drain pending failed)
  exact ⟨history, pending, history.lifecycle.paused.mpr pending, history.lifecycle.kept _ _ pending, after, failed, dropped⟩

theorem results_cleared (e : Executor) : e.cleared.results = [] := by
  simp only [results, Window.values, RegisterStack.slice, Window.top]
  split <;> simp [cleared, RegisterStack.emptied]

theorem cleared_of_bottom (bottom : e.context.stack.top = 0) : e.cleared = e := by
  simp only [cleared, RegisterStack.emptied, bottom, RegisterStack.clear]
  rw [← bottom]

/-- Where nothing is pending, the cursor is at the bottom unless there are results to read. -/
theorem Consistent.bottom (consistent : e.Consistent) (resting : e.callStack = []) (read : e.results = []) :
    e.context.stack.top = 0 := by
  cases state : e.state with
  | idle => exact consistent.idle state
  | paused => exact absurd resting (consistent.paused.mp state)
  | finished =>
    have fits := consistent.fits
    simp only [results, state, if_true, Window.values, RegisterStack.slice, Window.top] at read
    have length := congrArg List.length read
    simp only [Array.length_toList, Array.size_extract, List.length_nil] at length
    simp only [RegisterStack.capacity] at fits
    omega

/-- A call is refused while another is pending, which changes nothing, or if its arguments do not
fit. The stack has been emptied by then, so the results of a finished call are gone, although the
executor still counts as finished. -/
theorem History.refused (history : History e) {err : Failure} (refused : (e.pushCall f args).1 = .error err) :
    (e.pushCall f args).2.state = e.state ∧ (e.pushCall f args).2.callStack = e.callStack ∧
      (e.pushCall f args).2.lastReason = e.lastReason ∧
      ((e.pushCall f args).2 = e ↔ e.callStack ≠ [] ∨ e.results = []) ∧
      (e.callStack = [] → err = .stack (.insufficientSpace args.length e.context.stack.capacity) ∧
        (e.pushCall f args).2.results = []) := by
  have consistent := history.consistent
  by_cases pending : e.callStack ≠ []
  · rw [pushCall_of_pending pending]
    exact ⟨rfl, rfl, rfl, ⟨fun _ => .inl pending, fun _ => rfl⟩, fun idle => absurd idle pending⟩
  · have resting := not_not.mp pending
    rw [pushCall_of_resting resting] at refused ⊢
    split at refused
    · next full =>
      cases refused
      rw [if_pos full]
      refine ⟨rfl, rfl, rfl, ⟨?_, ?_⟩, fun _ => ⟨rfl, e.results_cleared⟩⟩
      · intro same
        exact .inr ((congrArg results same).symm.trans e.results_cleared)
      · intro unchanged
        exact cleared_of_bottom (consistent.bottom resting (unchanged.resolve_left pending))
    · cases refused

private def answered : Executor :=
  { unused with
    context := { unused.context with stack := ⟨#[.bool true, .nil], 1⟩ }
    state := .finished }

private theorem history_answered : History answered := by
  have ran : drain 9 unruly (unused.pushCall ⟨2⟩ [.bool true]).2 = some (.ok .finished, unruly, answered) := by cbv
  exact .of_drain (.pushed history_unused ⟨2⟩ [.bool true]) ran

/-- Three arguments do not fit two slots, and the result that was there is lost. -/
theorem History.refused_overfull : History answered ∧
    (answered.pushCall ⟨2⟩ [.nil, .nil, .nil]).1 = .error (.stack (.insufficientSpace 3 2)) ∧
    answered.results = [.bool true] ∧ (answered.pushCall ⟨2⟩ [.nil, .nil, .nil]).2.state = .finished ∧
    (answered.pushCall ⟨2⟩ [.nil, .nil, .nil]).2.results = [] := by
  have turned : (answered.pushCall ⟨2⟩ [.nil, .nil, .nil]).1 = .error (.stack (.insufficientSpace 3 2)) := by cbv
  have refused := history_answered.refused turned
  exact ⟨history_answered, turned, by cbv, refused.1, (refused.2.2.2.2 rfl).2⟩

theorem results_not_kept : ¬ ∀ e : Executor, History e → ∀ f args err,
    (e.pushCall f args).1 = .error err → (e.pushCall f args).2.results = e.results := by
  intro kept
  have turned : (answered.pushCall ⟨2⟩ [.nil, .nil, .nil]).1 = .error (.stack (.insufficientSpace 3 2)) := by cbv
  have same := kept answered history_answered ⟨2⟩ [.nil, .nil, .nil] _ turned
  have lost : (answered.pushCall ⟨2⟩ [.nil, .nil, .nil]).2.results = [] := by cbv
  have held : answered.results = [.bool true] := by cbv
  rw [lost, held] at same
  cases same

end Executor

end CoopScript
