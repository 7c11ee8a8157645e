import CoopScript.Proofs.FixedParts

/-! The count of preemptions. Running code adds to it and never looks at it, so a run comes to the
same whatever had been counted before. Two machines that differ in their counts alone are followed
side by side, and so is any pair of machines whose steps keep them related. -/

namespace CoopScript

namespace Budget

variable (b : Budget) (n : Nat)

theorem charge_recount (cost : Nat) :
    charge { b with preemptions := n } cost = { b.charge cost with preemptions := n } := by
  rcases b with ⟨_, _ | _, _, _⟩ <;> rfl

theorem isExhausted_recount : isExhausted { b with preemptions := n } = b.isExhausted := rfl

/-- The same but for the count. -/
def SameButCount (b b' : Budget) : Prop := ∃ n, b' = { b with preemptions := n }

namespace SameButCount

variable {b b' : Budget}

theorem charge (same : b.SameButCount b') (cost : Nat) : (b.charge cost).SameButCount (b'.charge cost) := by
  obtain ⟨n, rfl⟩ := same
  exact ⟨n, b.charge_recount n cost⟩

theorem isExhausted (same : b.SameButCount b') : b'.isExhausted = b.isExhausted := by
  obtain ⟨n, rfl⟩ := same
  exact b.isExhausted_recount n

theorem recordPreemption (same : b.SameButCount b') : b.recordPreemption.SameButCount b'.recordPreemption := by
  obtain ⟨n, rfl⟩ := same
  exact ⟨n + 1, rfl⟩

/-- Full budgets with the same limits. -/
theorem refill (slice : b'.slice = b.slice) (mark : b'.lowWaterMark = b.lowWaterMark) :
    b.refill.SameButCount b'.refill := by
  refine ⟨b'.preemptions, ?_⟩
  simp only [Budget.refill, slice, mark]

end SameButCount

end Budget

namespace Core

/-- The same but for the count of preemptions. -/
def SameButCount (c d : Core) : Prop := ∃ n, d = c.withBudget { c.context.budget with preemptions := n }

/-- An operation that does not look at the count. -/
def Heedless {α : Type} (op : CoreM α) : Prop :=
  ∀ c d : Core, c.SameButCount d → (op d).1 = (op c).1 ∧ (op c).2.SameButCount (op d).2

namespace Heedless

theorem of_stacked {α : Type} {op : CoreM α}
    (stacked : ∀ c d, c.SameButCount d → op d = ((op c).1, d.withStack (op c).2.context.stack)) : Heedless op := by
  intro c d same
  obtain ⟨n, rfl⟩ := same
  have here := stacked c c ⟨c.context.budget.preemptions, rfl⟩
  have there := stacked c _ ⟨n, rfl⟩
  generalize op c = ran at here there ⊢
  rw [there, here]
  exact ⟨rfl, n, rfl⟩

theorem of_local {α : Type} {op : CoreM α} (stacked : Local op) : Heedless op := by
  apply of_stacked
  intro c d same
  obtain ⟨n, rfl⟩ := same
  exact stacked c _ rfl

theorem onWorld {α : Type} (op : WorldM α) : Heedless (onWorld op) := by
  intro c d same
  obtain ⟨n, rfl⟩ := same
  exact ⟨rfl, n, rfl⟩

theorem bind {α β : Type} {op : CoreM α} {next : α → CoreM β} (first : Heedless op) (rest : ∀ a, Heedless (next a)) :
    Heedless (op >>= next) := by
  intro c d same
  obtain ⟨alike, after⟩ := first c d same
  simp only [bind_apply]
  rcases ranHere : op c with ⟨here, c'⟩
  rcases ranThere : op d with ⟨there, d'⟩
  simp only [ranHere, ranThere] at alike after
  subst alike
  cases there with
  | error e => exact ⟨rfl, after⟩
  | ok a => exact rest a c' d' after

theorem charge (cost : Nat) : Heedless (modifyBudget (Budget.charge · cost)) := by
  intro c d same
  obtain ⟨n, rfl⟩ := same
  refine ⟨rfl, n, ?_⟩
  exact congrArg c.withBudget (c.context.budget.charge_recount n cost)

theorem tick : Heedless tick := by
  intro c d same
  obtain ⟨n, rfl⟩ := same
  rw [tick_apply, tick_apply, withBudget_budget, Budget.isExhausted_recount]
  cases c.context.budget.isExhausted
  · exact ⟨rfl, n, rfl⟩
  · exact ⟨rfl, n + 1, rfl⟩

end Heedless

end Core

theorem Proto.step_heedless (p : Proto) (f : FunctionId) (w : Window) (pc : Nat) : Core.Heedless (p.step f w pc) := by
  intro c d same
  rcases p.place_cases pc with plain | ⟨cost, found⟩ | found
  · obtain ⟨n, rfl⟩ := same
    rw [step_plain c plain, step_plain _ plain]
    exact ⟨rfl, n, rfl⟩
  · rw [step_charge c found, step_charge d found]
    exact ⟨rfl, (Core.Heedless.charge cost c d same).2⟩
  · obtain ⟨n, rfl⟩ := same
    rw [step_tick c found, step_tick _ found, Core.withBudget_budget, Budget.isExhausted_recount]
    cases c.context.budget.isExhausted
    · exact ⟨rfl, n, rfl⟩
    · exact ⟨rfl, n + 1, rfl⟩

theorem Request.serve_heedless (r : Request) (w : Window) : Core.Heedless (r.serve w) := by
  apply Core.Heedless.of_stacked
  intro c d same
  obtain ⟨n, rfl⟩ := same
  exact r.serve_local w c _ ⟨rfl, rfl⟩ rfl

open CoopScript.Core in
theorem Action.perform_heedless (f : FunctionId) (w : Window) (a : Action) : Heedless (a.perform f w) := by
  rcases a.perform_cases f w with stacked | ⟨cost, next, stacked, same⟩
  · exact .of_local stacked
  · rw [same]
    exact (Heedless.charge cost).bind fun _ => Heedless.tick.bind fun spent => .of_local (stacked spent)

namespace Callable

open CoopScript.Core

theorem invoke_heedless (called : Callable) (f : FunctionId) (w : Window) : Heedless (called.invoke f w) := by
  refine (Heedless.of_local .getStack).bind fun held => ?_
  cases called with
  | script p => exact (Heedless.of_local (p.enter_local w)).bind fun _ => .of_local (.pure _)
  | «matches» cursor => exact (Heedless.onWorld _).bind fun _ => Action.perform_heedless f w _
  | builtin _ | lines _ _ | host _ => exact (Heedless.onWorld _).bind fun a => a.perform_heedless f w

theorem resume_heedless (called : Callable) (f : FunctionId) (w : Window) (s : Saved) :
    Heedless (called.resume f w s) := by
  refine (Heedless.of_local .getStack).bind fun held => ?_
  cases called with
  | script p =>
    cases s with
    | script pc pending => exact (Heedless.of_local (p.resume_local w pending)).bind fun _ => .of_local (.pure _)
    | _ => exact .of_local (.throw _)
  | «matches» _ => exact .of_local (.throw _)
  | lines file formats =>
    cases s with
    | reading r => exact (Heedless.onWorld _).bind fun a => a.perform_heedless f w
    | _ => exact .of_local (.throw _)
  | builtin _ | host _ => exact (Heedless.onWorld _).bind fun a => a.perform_heedless f w

end Callable

theorem Activity.step_heedless (a : Activity) : Core.Heedless a.step := by
  intro c d same
  have world : d.world = c.world := by
    obtain ⟨n, rfl⟩ := same
    rfl
  cases a with
  | returned => exact ⟨rfl, same⟩
  | dispatch r w => exact (r.serve_heedless w).bind (fun _ => .of_local (.pure _)) c d same
  | enter f w =>
    rw [step_enter, step_enter, world]
    exact Callable.invoke_heedless _ f w c d same
  | resume f w s =>
    rw [step_resume, step_resume, world]
    exact Callable.resume_heedless _ f w s c d same
  | running f w pc =>
    simp only [step, Core.bind_apply, Core.getWorld_apply, world]
    cases c.world.callable f with
    | script p => exact p.step_heedless f w pc c d same
    | _ => exact ⟨rfl, same⟩

namespace Machine

/-- What two steps come to that both move on, or that both end their run in the same way. -/
inductive Lockstep (moving : Machine → Machine → Prop) (resting : Halt → Machine → Machine → Prop) :
    Machine ⊕ (Halt × Machine) → Machine ⊕ (Halt × Machine) → Prop where
  | moved {m n} (related : moving m n) : Lockstep moving resting (.inl m) (.inl n)
  | rested {halt m n} (related : resting halt m n) : Lockstep moving resting (.inr (halt, m)) (.inr (halt, n))

/-- What two runs come to with the same fuel. -/
inductive Abreast (resting : Halt → Machine → Machine → Prop) :
    Option (Halt × Machine) → Option (Halt × Machine) → Prop where
  | unended : Abreast resting none none
  | rested {halt m n} (related : resting halt m n) : Abreast resting (some (halt, m)) (some (halt, n))

variable {moving : Machine → Machine → Prop} {resting : Halt → Machine → Machine → Prop} {m n : Machine}

/-- Machines that step by step keep up with one another come to rest together. -/
theorem run_abreast (kept : ∀ m n, moving m n → Lockstep moving resting m.step n.step) (related : moving m n)
    (fuel : Nat) : Abreast resting (m.run fuel) (n.run fuel) := by
  induction fuel generalizing m n with
  | zero => exact .unended
  | succ fuel ih =>
    have stepped := kept m n related
    simp only [run]
    generalize m.step = here at stepped
    generalize n.step = there at stepped
    cases stepped with
    | moved related => exact ih related
    | rested related => exact .rested related

/-- The same but for the count of preemptions. -/
def SameButCount (m n : Machine) : Prop := ∃ d, m.core.SameButCount d ∧ n = { m with core := d }

theorem SameButCount.others (same : m.SameButCount n) : n.core.world = m.core.world ∧
    n.core.context.stack = m.core.context.stack ∧ n.pending = m.pending := by
  obtain ⟨_, ⟨_, rfl⟩, rfl⟩ := same
  exact ⟨rfl, rfl, rfl⟩

theorem SameButCount.restarted (same : m.SameButCount n) : m.restarted.SameButCount n.restarted := by
  obtain ⟨_, ⟨count, rfl⟩, rfl⟩ := same
  exact ⟨_, ⟨count, rfl⟩, rfl⟩

theorem step_heedless (same : m.SameButCount n) :
    Lockstep SameButCount (fun _ m n => m.SameButCount n) m.step n.step := by
  obtain ⟨d, same, rfl⟩ := same
  have alike := m.activity.step_heedless m.core d same
  by_cases returned : m.activity = .returned
  · obtain ⟨core, activity, callers, pending⟩ := m
    obtain ⟨k, rfl⟩ := same
    simp only at returned
    subst returned
    rcases callers with _ | ⟨frame, callers⟩
    · rcases pending with _ | ⟨frame, pending⟩
      · exact .rested ⟨_, ⟨k, rfl⟩, rfl⟩
      · simp only [step, Core.withBudget_world]
        by_cases refused : (frame.state.isSome && !(core.world.callable frame.function).isResumable) = true
        · simp only [refused, if_true]
          apply Lockstep.rested
          exact ⟨_, ⟨k, rfl⟩, rfl⟩
        · simp only [refused]
          exact .moved ⟨_, ⟨k, rfl⟩, rfl⟩
    · exact .moved ⟨_, ⟨k, rfl⟩, rfl⟩
  · rw [step_working rfl returned, step_working (m := { m with core := d }) rfl returned]
    rcases ranHere : m.activity.step m.core with ⟨here, c'⟩
    rcases ranThere : m.activity.step d with ⟨there, d'⟩
    simp only [ranHere, ranThere] at alike
    obtain ⟨rfl, k, rfl⟩ := alike
    rcases there with e | (a | ⟨frame, r, w⟩ | ⟨reason, frame⟩)
    · exact .rested ⟨_, ⟨k, rfl⟩, rfl⟩
    · exact .moved ⟨_, ⟨k, rfl⟩, rfl⟩
    · exact .moved ⟨_, ⟨k, rfl⟩, rfl⟩
    · simp only [after, suspend, Core.withBudget_draining]
      by_cases draining : c'.context.draining = true
      · simp only [draining, if_true]
        exact .rested ⟨_, ⟨k, rfl⟩, rfl⟩
      · simp only [draining]
        apply Lockstep.rested
        exact ⟨_, ⟨k, rfl⟩, rfl⟩

end Machine

end CoopScript
