import CoopScript.Proofs.EvaluatedCalls

/-! Drains of an executor whose functions call each other directly. Signals are raised, take the
frames of the callers along and are put on top of what was pending; machines do nothing of the kind,
and a drain still leaves the same behind. -/

namespace CoopScript

/-- The run of a machine comes to this, with the frames of the stack pending if it is paused. As
long as there is nothing to come to, it does not come to rest in so many steps. -/
def Machine.Comes (n : Nat) (m : Machine) : Option (Halt × Core × CallStack) → Prop
  | none => m.run n = none
  | some (h, c, stack) => ∃ fuel last, m.run fuel = some (h, last) ∧ last.core = c ∧
      ∀ reason, h = .paused reason → last.pending = stack.resumption

/-- Without callers there is nobody on the way out. -/
theorem Machine.Realizes.ends {m : Machine} {n : Nat} {raise : Raise} {c : Core}
    (realizes : m.Realizes n (some (.error raise, c))) (alone : m.callers = []) :
    ∃ fuel last, m.run fuel = some (raise.halt, last) ∧ last.core = c ∧
      ∀ signal, raise = .suspend signal → last.pending = signal.frames ++ m.pending := by
  obtain ⟨fuel, ⟨h, last⟩, ran, ended⟩ := realizes
  rw [alone] at ended
  obtain rfl : h = raise.halt := ended.halt
  exact ⟨fuel, last, ran, ended.core, ended.saved⟩

theorem Machine.Comes.of_step {m next last : Machine} {n : Nat} {outcome : Option (Halt × Core × CallStack)}
    (comes : last.Comes n outcome) (moved : m.step = .inl next) (leads : next.Leads last) : m.Comes (n + 1) outcome := by
  rcases outcome with _ | ⟨h, c, stack⟩
  · exact (run_inl moved n).trans (leads.run_eq_none comes)
  · obtain ⟨fuel, rested, ran, left⟩ := comes
    obtain ⟨more, ran⟩ := leads.run_eq_some ran
    exact ⟨more + 1, rested, (run_inl moved more).trans ran, left⟩

/-- Once nothing is at work any more, the next of the pending frames is continued if its function
can be resumed. -/
theorem Machine.step_pending {m : Machine} {frame : Frame} {pending : List Frame} (returned : m.activity = .returned)
    (alone : m.callers = []) (waiting : m.pending = frame :: pending) : m.step =
      if frame.state.isSome && !(m.core.world.callable frame.function).isResumable then
        .inr (m.fail (.protocol (.notSuspendable (m.core.world.callable frame.function).name)))
      else .inl { m with activity := frame.activity, pending } := by
  obtain ⟨core, activity, callers, pending⟩ := m
  simp only at returned alone waiting
  subst returned alone waiting
  rfl

namespace Evaluation

open CoopScript.Core Machine

/-- However deep they go, calls are made as the machine makes them. -/
theorem enter_serves (fuel : Nat) : Serves fuel (enter fuel) := by
  induction fuel with
  | zero => exact fun _ _ _ _ => rfl
  | succ fuel ih =>
    intro m f w active
    rw [function, enter, handed_own (getWorld_apply m.core)]
    exact begun_realizes ih (Nat.le_refl _) active

variable {fuel : Nat} {m : Machine} {frame : Frame}

theorem continued_realizes (active : m.activity = frame.activity)
    (able : (frame.state.isSome && !(m.core.world.callable frame.function).isResumable) = false) :
    m.Realizes fuel (handed (continued fuel frame) m.core) := by
  rw [continued, handed_own (getWorld_apply m.core)]
  rw [Frame.activity] at active
  cases started : frame.state with
  | none =>
    rw [started] at active
    exact enter_serves fuel m _ _ active
  | some s =>
    rw [started] at active able
    have resumable : (m.core.world.callable frame.function).isResumable = true := by simpa using able
    simp only [resumable, if_true]
    exact resumed_realizes (enter_serves fuel) fuel.le_succ active

theorem continued_refused {c : Core} (refused : (frame.state.isSome && !(c.world.callable frame.function).isResumable) = true) :
    continued fuel frame c =
      some (.error (.error (.protocol (.notSuspendable (c.world.callable frame.function).name))), c) := by
  obtain ⟨saved, unable⟩ := Bool.and_eq_true_iff.mp refused
  obtain ⟨s, started⟩ := Option.isSome_iff_exists.mp saved
  have unable : (c.world.callable frame.function).isResumable = false := by simpa using unable
  rw [continued, own_bind, getWorld_apply]
  simp only [started, unable]
  rfl

/-- The pending frames are continued as the machine continues them. -/
theorem work_comes {stack : CallStack} (returned : m.activity = .returned) (alone : m.callers = [])
    (waiting : m.pending = stack.resumption) : m.Comes fuel (work fuel stack m.core) := by
  induction fuel generalizing m stack with
  | zero => rfl
  | succ fuel ih =>
    rw [work]
    cases popped : stack.pop? with
    | none =>
      have none : m.frames = [] := by rw [frames, alone, waiting, CallStack.pop?_eq_none.mp popped, List.append_nil]
      exact ⟨1, m, run_inr (step_finished returned none) 0, rfl, by rintro _ ⟨⟩⟩
    | some top =>
      obtain ⟨frame, rest⟩ := top
      have stepped := step_pending returned alone (waiting.trans (CallStack.resumption_of_pop? popped))
      cases refused : frame.state.isSome && !(m.core.world.callable frame.function).isResumable with
      | true =>
        simp only [refused, if_true] at stepped
        simp only [continued_refused refused]
        refine ⟨1, _, run_inr stepped 0, ?_, by rintro _ ⟨⟩⟩
        simp [log, failureLines, alone]
      | false =>
        simp only [refused, Bool.false_eq_true, if_false] at stepped
        let next : Machine := { m with activity := frame.activity, pending := rest.resumption }
        have realizes : next.Realizes fuel (handed (continued fuel frame) m.core) := continued_realizes rfl refused
        rw [handed_apply] at realizes
        simp only
        generalize continued fuel frame m.core = outcome at realizes ⊢
        rcases outcome with _ | ⟨(signal | e) | ⟨⟩, c⟩
        · exact (run_inl stepped fuel).trans realizes
        · obtain ⟨k, last, ran, core, saved⟩ := Realizes.ends realizes alone
          refine ⟨k + 1, last, (run_inl stepped k).trans ran, core, fun _ _ => ?_⟩
          rw [saved _ rfl, CallStack.resumption_splice]
          rfl
        · obtain ⟨k, last, ran, core, -⟩ := Realizes.ends realizes alone
          exact ⟨k + 1, last, (run_inl stepped k).trans ran, core, by rintro _ ⟨⟩⟩
        · have later : next.Leads { next with core := c, activity := .returned } := realizes
          exact (ih (m := { next with core := c, activity := .returned }) rfl alone rfl).of_step stepped later

end Evaluation

namespace Executor

/-- What is left of a drain is its core and, if it is paused, the frames that are pending. -/
theorem settled_eq (e : Executor) {h : Halt} {m last : Machine} (core : last.core = m.core)
    (saved : ∀ reason, h = .paused reason → last.pending = m.pending) : e.settled h last = e.settled h m := by
  cases h with
  | paused reason => simp only [settled, core, saved reason rfl]
  | finished | failed _ => simp only [settled, core]

variable {w : World} {e : Executor} {fuel : Nat} {result : Except Failure Drain × World × Executor}

theorem machine_comes (w : World) (e : Executor) (fuel : Nat) :
    (e.machine w).Comes fuel (Evaluation.work fuel (.ofResumption e.callStack) (e.machine w).core) :=
  Evaluation.work_comes rfl rfl (CallStack.resumption_ofResumption e.callStack).symm

theorem drain_of_evaluate (evaluated : evaluate fuel w e = some result) : ∃ more, drain more w e = some result := by
  have comes := machine_comes w e fuel
  unfold evaluate at evaluated
  unfold drain
  split at evaluated
  · next idle => exact ⟨0, by rwa [if_pos idle]⟩
  · next busy =>
    simp only [if_neg busy]
    generalize Evaluation.work fuel (.ofResumption e.callStack) (e.machine w).core = outcome at comes evaluated
    obtain _ | ⟨h, c, stack⟩ := outcome
    · cases evaluated
    · obtain ⟨more, last, ran, rfl, saved⟩ := comes
      have same : e.settled h last = e.settled h { core := last.core, pending := stack.resumption } :=
        e.settled_eq rfl saved
      exact ⟨more, by simpa only [ran, same] using evaluated⟩

/-- An evaluation needs no more fuel than the machine. -/
theorem evaluate_of_drain (drained : drain fuel w e = some result) : evaluate fuel w e = some result := by
  cases evaluated : evaluate fuel w e with
  | some other =>
    obtain ⟨more, ran⟩ := drain_of_evaluate evaluated
    rw [drain_unique drained ran]
  | none =>
    have comes := machine_comes w e fuel
    unfold evaluate at evaluated
    unfold drain at drained
    split at evaluated
    · cases evaluated
    · next busy =>
      rw [if_neg busy] at drained
      generalize Evaluation.work fuel (.ofResumption e.callStack) (e.machine w).core = outcome at comes evaluated
      obtain _ | ⟨h, c, stack⟩ := outcome
      · have running : (e.machine w).run fuel = none := comes
        rw [running] at drained
        cases drained
      · cases evaluated

/-- Drains come to the same when functions call each other directly. -/
theorem drain_iff_evaluate (w : World) (e : Executor) (result : Except Failure Drain × World × Executor) :
    (∃ fuel, drain fuel w e = some result) ↔ ∃ fuel, evaluate fuel w e = some result :=
  ⟨fun ⟨fuel, drained⟩ => ⟨fuel, evaluate_of_drain drained⟩, fun ⟨_, evaluated⟩ => drain_of_evaluate evaluated⟩

end Executor

end CoopScript
