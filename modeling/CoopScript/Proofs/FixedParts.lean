import CoopScript.Proofs.LibraryStates
import CoopScript.Proofs.MachineRuns

/-! What is fixed while code runs. Functions come into being, and iterations move on, but no step
gives a function another prototype: what a suspended frame will find when it goes on is what it
left. The limits of a drain are fixed too, whatever is taken from its budget. -/

namespace CoopScript

def Callable.proto? : Callable → Option Proto
  | .script p => some p
  | _ => none

/-- The code of a function, if it is a script. -/
def World.proto? (w : World) (f : FunctionId) : Option Proto := (w.callable f).proto?

namespace World

theorem proto?_eq_some {w : World} {f : FunctionId} {p : Proto} : w.proto? f = some p ↔ w.callable f = .script p := by
  unfold proto? Callable.proto?
  cases w.callable f <;> simp

theorem isResumable_of_proto? {w : World} {f : FunctionId} (script : (w.proto? f).isSome) :
    (w.callable f).isResumable = true := by
  obtain ⟨p, found⟩ := Option.isSome_iff_exists.mp script
  rw [proto?_eq_some.mp found]
  rfl

/-- A function that is added is no script, and neither is the one its id stood for before. -/
theorem Extends.proto? {w v : World} (grown : w.Extends v) (f : FunctionId) : v.proto? f = w.proto? f := by
  rcases grown.callable f with same | ⟨absent, iteration⟩
  · rw [World.proto?, same, World.proto?]
  · rw [World.proto?, World.proto?, callable_of_absent absent]
    generalize v.callable f = c at iteration
    cases c <;> first | rfl | cases iteration

/-- Functions that can be resumed stay what they are. -/
def Retains (w v : World) : Prop := ∀ f, (w.callable f).isResumable = true → v.callable f = w.callable f

theorem Retains.trans {u v w : World} (first : u.Retains v) (rest : v.Retains w) : u.Retains w := by
  intro f resumable
  have same := first f resumable
  rw [rest f (same ▸ resumable), same]

/-- No function comes in that is neither verified nor of the library, and functions that can be
resumed are retained. -/
structure Grows (w v : World) : Prop where
  retains : w.Retains v
  shipped : w.Shipped → v.Shipped

theorem Grows.refl (w : World) : w.Grows w := ⟨fun _ _ => rfl, id⟩

theorem Grows.trans {u v w : World} (first : u.Grows v) (rest : v.Grows w) : u.Grows w :=
  ⟨first.retains.trans rest.retains, fun shipped => rest.shipped (first.shipped shipped)⟩

theorem Extends.grows {w v : World} (grown : w.Extends v) : w.Grows v := by
  refine ⟨?_, ?_⟩
  · intro f resumable
    rcases grown.callable f with same | ⟨absent, _⟩
    · exact same
    · rw [callable_of_absent absent] at resumable
      cases resumable
  · intro shipped c member
    obtain ⟨added, same, iterations⟩ := grown
    rw [same] at member
    rcases Array.mem_append.mp member with member | member
    · exact shipped c member
    · have iteration := iterations c member
      cases c <;> trivial

theorem callable_addFunction_of_lt (w : World) {f : FunctionId} (inside : f.index < w.functions.size) (c : Callable) :
    (w.addFunction c).2.callable f = w.callable f := by
  simp [callable, addFunction, Array.getD_eq_getD_getElem?, Array.getElem?_push_lt, inside]

theorem callable_setCallable_of_ne (w : World) {f g : FunctionId} (apart : f.index ≠ g.index) (c : Callable) :
    (w.setCallable f c).callable g = w.callable g := by
  simp only [callable, setCallable, Array.getD_eq_getD_getElem?, Array.getElem?_setIfInBounds, apart, if_false]

theorem callable_setCallable_self {w : World} {f : FunctionId} (inside : f.index < w.functions.size) (c : Callable) :
    (w.setCallable f c).callable f = c := by
  simp only [callable, setCallable, Array.getD_eq_getD_getElem?, Array.getElem?_setIfInBounds, inside, if_true,
    Option.getD_some]

/-- Where an iteration moves on, it is the only function that changes. -/
theorem callable_advanced {w : World} {f : FunctionId} {cursor : Pattern.Cursor} (found : w.callable f = .matches cursor)
    (next : Pattern.Cursor) (g : FunctionId) :
    (w.setCallable f (.matches next)).callable g = w.callable g ∨
      w.callable g = .matches cursor ∧ (w.setCallable f (.matches next)).callable g = .matches next := by
  by_cases same : f.index = g.index
  · obtain rfl : f = g := congrArg FunctionId.mk same
    have inside : f.index < w.functions.size := by
      by_contra beyond
      rw [callable_of_absent (by simpa using beyond)] at found
      cases found
    exact .inr ⟨found, callable_setCallable_self inside _⟩
  · exact .inl (w.callable_setCallable_of_ne same _)

/-- An iteration moves on; it cannot be resumed. -/
theorem setCallable_grows {w : World} {f : FunctionId} {cursor : Pattern.Cursor} (found : w.callable f = .matches cursor)
    (next : Pattern.Cursor) : w.Grows (w.setCallable f (.matches next)) := by
  refine ⟨?_, ?_⟩
  · intro g resumable
    rcases callable_advanced found next g with same | ⟨iteration, -⟩
    · exact same
    · rw [iteration] at resumable
      cases resumable
  · intro shipped c member
    rcases Array.mem_or_eq_of_mem_setIfInBounds member with member | rfl
    · exact shipped c member
    · trivial

theorem proto?_setCallable (w : World) (f g : FunctionId) (c : Callable) (other : c.proto? = none)
    (before : w.proto? f = none) : (w.setCallable f c).proto? g = w.proto? g := by
  simp only [proto?, callable, setCallable, Array.getD_eq_getD_getElem?, Array.getElem?_setIfInBounds] at before ⊢
  by_cases same : f.index = g.index
  · rw [← same]
    by_cases inside : f.index < w.functions.size
    · simp only [inside, if_true, Option.getD_some, other, before]
    · simp only [inside, if_false, if_true]
      simp [inside]
  · simp only [same, if_false]

theorem resume_extends (b : Builtin) (s : Saved) (held : List Value) (w : World) : w.Extends (b.resume s held w).2 := by
  cases expected : b.expects s with
  | true => exact (resume_ensures expected held w).grown
  | false =>
    rw [Builtin.resume_unexpected expected]
    exact .of_same rfl

theorem action_extends (r : Reply) (w : World) : w.Extends (r.action w).2 := by
  obtain ⟨log, outcome⟩ := r
  cases outcome <;> exact .of_same rfl

end World

namespace Core

/-- What running code leaves as it is: prototypes, functions that can be resumed, the limits of
the budget, and whether there is a drain. -/
structure Keeps (c d : Core) : Prop where
  code : ∀ f, d.world.proto? f = c.world.proto? f
  functions : c.world.Grows d.world
  slice : d.context.budget.slice = c.context.budget.slice
  mark : d.context.budget.lowWaterMark = c.context.budget.lowWaterMark
  draining : d.context.draining = c.context.draining

theorem Keeps.refl (c : Core) : c.Keeps c := ⟨fun _ => rfl, .refl _, rfl, rfl, rfl⟩

theorem Keeps.withStack (c : Core) (s : RegisterStack) : c.Keeps (c.withStack s) := ⟨fun _ => rfl, .refl _, rfl, rfl, rfl⟩

theorem Keeps.trans {c d e : Core} (first : c.Keeps d) (rest : d.Keeps e) : c.Keeps e :=
  ⟨fun f => (rest.code f).trans (first.code f), first.functions.trans rest.functions, rest.slice.trans first.slice,
    rest.mark.trans first.mark, rest.draining.trans first.draining⟩

theorem Keeps.charge (c : Core) (cost : Nat) : c.Keeps (c.withBudget (c.context.budget.charge cost)) := by
  simp only [Budget.charge]
  split <;> exact ⟨fun _ => rfl, .refl _, rfl, rfl, rfl⟩

def Conservative {α : Type} (op : CoreM α) : Prop := ∀ c : Core, c.Keeps (op c).2

namespace Conservative

theorem of_local {α : Type} {op : CoreM α} (stacked : Local op) : Conservative op := by
  intro c
  rw [stacked c c rfl]
  exact .withStack c _

theorem onWorld {α : Type} {op : WorldM α} (grows : ∀ w : World, w.Extends (op w).2) : Conservative (onWorld op) :=
  fun c => ⟨(grows c.world).proto?, (grows c.world).grows, rfl, rfl, rfl⟩

theorem ensured {α : Type} {post : α → Prop} {op : WorldM α} (ensures : World.Ensures post op) :
    Conservative (Core.onWorld op) :=
  onWorld fun w => (ensures w).grown

theorem bind {α β : Type} {op : CoreM α} {next : α → CoreM β} (first : Conservative op)
    (rest : ∀ a, Conservative (next a)) : Conservative (op >>= next) := by
  intro c
  have kept := first c
  simp only [bind_apply]
  rcases ran : op c with ⟨_ | a, after⟩ <;> rw [ran] at kept
  · exact kept
  · exact kept.trans (rest a after)

theorem charge (cost : Nat) : Conservative (modifyBudget (Budget.charge · cost)) := fun c => Keeps.charge c cost

theorem tick : Conservative tick := by
  intro c
  rw [tick_apply]
  cases c.context.budget.isExhausted <;> exact ⟨fun _ => rfl, .refl _, rfl, rfl, rfl⟩

end Conservative

end Core

namespace Proto

theorem step_conservative (p : Proto) (f : FunctionId) (w : Window) (pc : Nat) : Core.Conservative (p.step f w pc) := by
  intro c
  rcases p.place_cases pc with plain | ⟨cost, found⟩ | found
  · rw [step_plain c plain]
    exact ⟨fun _ => rfl, .refl _, rfl, rfl, rfl⟩
  · rw [step_charge c found]
    exact Core.Keeps.charge c cost
  · rw [step_tick c found]
    split <;> exact ⟨fun _ => rfl, .refl _, rfl, rfl, rfl⟩

end Proto

theorem Request.serve_conservative (r : Request) (w : Window) : Core.Conservative (r.serve w) := by
  intro c
  rw [r.serve_local w c c ⟨rfl, rfl⟩ rfl]
  exact .withStack c _

open CoopScript.Core in
theorem Action.perform_conservative (f : FunctionId) (w : Window) (a : Action) : Conservative (a.perform f w) := by
  rcases a.perform_cases f w with stacked | ⟨cost, next, stacked, same⟩
  · exact .of_local stacked
  · rw [same]
    exact (Conservative.charge cost).bind fun _ => Conservative.tick.bind fun spent => .of_local (stacked spent)

open CoopScript.Core in
theorem Callable.invoke_keeps (f : FunctionId) (w : Window) (c : Core) :
    c.Keeps ((c.world.callable f).invoke f w c).2 := by
  cases found : c.world.callable f with
  | script p =>
    exact ((Conservative.of_local .getStack).bind fun _ =>
      (Conservative.of_local (p.enter_local w)).bind fun _ => .of_local (.pure _)) c
  | builtin b =>
    exact ((Conservative.of_local .getStack).bind fun held =>
      (Conservative.ensured (World.invoke_ensures b _)).bind fun a => a.perform_conservative f w) c
  | «matches» cursor =>
    have moved (g : FunctionId) := World.proto?_setCallable c.world f g (.matches cursor.advance.2) rfl
      (by simp only [World.proto?, found, Callable.proto?])
    have advanced : c.Keeps { c with world := c.world.setCallable f (.matches cursor.advance.2) } :=
      ⟨moved, World.setCallable_grows found _, rfl, rfl, rfl⟩
    exact advanced.trans (Action.perform_conservative f w (.ret cursor.advance.1) _)
  | lines file formats =>
    have ensures := World.nextItems_ensures (Callable.lines_expects file formats) file formats
    exact ((Conservative.of_local .getStack).bind fun held =>
      (Conservative.ensured ensures).bind fun a => a.perform_conservative f w) c
  | host h =>
    exact ((Conservative.of_local .getStack).bind fun held =>
      (Conservative.onWorld (World.action_extends _)).bind fun a => a.perform_conservative f w) c

open CoopScript.Core in
theorem Callable.resume_conservative (called : Callable) (f : FunctionId) (w : Window) (s : Saved) :
    Conservative (called.resume f w s) := by
  refine (Conservative.of_local .getStack).bind fun held => ?_
  cases called with
  | script p =>
    cases s with
    | script pc pending => exact (Conservative.of_local (p.resume_local w pending)).bind fun _ => .of_local (.pure _)
    | _ => exact .of_local (.throw _)
  | builtin b => exact (Conservative.onWorld (World.resume_extends b _ _)).bind fun a => a.perform_conservative f w
  | «matches» cursor => exact .of_local (.throw _)
  | lines file formats =>
    cases s with
    | reading r =>
      have ensures := World.readItems_ensures (Callable.lines_expects file formats) r.file r.results r.collected r.formats
      exact (Conservative.ensured ensures).bind fun a => a.perform_conservative f w
    | _ => exact .of_local (.throw _)
  | host h => exact (Conservative.onWorld (World.action_extends _)).bind fun a => a.perform_conservative f w

theorem Activity.step_keeps (a : Activity) (c : Core) : c.Keeps (a.step c).2 := by
  cases a with
  | returned => exact .refl c
  | dispatch r w => exact ((r.serve_conservative w).bind fun _ => .of_local (.pure _)) c
  | enter f w => exact Callable.invoke_keeps f w c
  | resume f w s => exact Callable.resume_conservative _ f w s c
  | running f w pc =>
    simp only [Activity.step, Core.bind_apply, Core.getWorld_apply]
    cases c.world.callable f with
    | script p => exact p.step_conservative f w pc c
    | _ => exact .refl c

/-- No step changes the code of a function or the limits of the drain. -/
theorem Machine.step_keeps {m next : Machine} (moved : m.step = .inl next) : m.core.Keeps next.core :=
  step_preserves Core.Keeps.refl Activity.step_keeps moved

theorem Machine.run_keeps {m last : Machine} {halt : Halt} {fuel : Nat} (ran : m.run fuel = some (halt, last)) :
    m.core.Keeps last.core :=
  run_preserves Core.Keeps.refl Core.Keeps.trans Activity.step_keeps
    (fun _ _ => ⟨fun _ => rfl, ⟨fun _ _ => rfl, id⟩, rfl, rfl, rfl⟩) ran

/-- A script at work has the code of a function that was there when the run began. -/
theorem Machine.involved_code {m : Machine} {n : Nat} {c : Callable} (seen : c ∈ m.involved n) :
    ∃ f, c.proto? = m.core.world.proto? f := by
  obtain ⟨moment, code, f, rfl⟩ := exists_of_mem_involved
    (P := fun moment => ∀ f, moment.core.world.proto? f = m.core.world.proto? f)
    (fun code moved f => ((step_keeps moved).code f).trans (code f)) (fun _ => rfl) seen
  exact ⟨f, code f⟩

/-- A drain leaves the code of every function. -/
theorem Executor.drain_code {w v : World} {e after : Executor} {fuel : Nat} {result : Except Failure Drain}
    (drained : drain fuel w e = some (result, v, after)) (f : FunctionId) : v.proto? f = w.proto? f := by
  rcases of_drain drained with ⟨-, rfl, -⟩ | ⟨halt, last, rested, rfl, -, -⟩
  · rfl
  · exact (Machine.run_keeps rested).code f

end CoopScript
