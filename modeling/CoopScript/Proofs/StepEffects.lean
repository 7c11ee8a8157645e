import CoopScript.Machine.Basic
import Mathlib

/-! What single steps do. A step of a script is the effect of its instruction on the registers,
whatever its place in the code, together with the place it goes on from; only accounting looks
at the budget. A request reads tables and userdata besides, and changes nothing but registers. -/

namespace CoopScript

namespace Core

def withStack (c : Core) (s : RegisterStack) : Core := { c with context := { c.context with stack := s } }

def withBudget (c : Core) (b : Budget) : Core := { c with context := { c.context with budget := b } }

@[simp] theorem withStack_stack (c : Core) (s : RegisterStack) : (c.withStack s).context.stack = s := rfl

@[simp] theorem withStack_world (c : Core) (s : RegisterStack) : (c.withStack s).world = c.world := rfl

@[simp] theorem withStack_budget (c : Core) (s : RegisterStack) :
    (c.withStack s).context.budget = c.context.budget := rfl

@[simp] theorem withStack_draining (c : Core) (s : RegisterStack) :
    (c.withStack s).context.draining = c.context.draining := rfl

@[simp] theorem withBudget_stack (c : Core) (b : Budget) : (c.withBudget b).context.stack = c.context.stack := rfl

@[simp] theorem withBudget_world (c : Core) (b : Budget) : (c.withBudget b).world = c.world := rfl

@[simp] theorem withBudget_budget (c : Core) (b : Budget) : (c.withBudget b).context.budget = b := rfl

@[simp] theorem withBudget_draining (c : Core) (b : Budget) :
    (c.withBudget b).context.draining = c.context.draining := rfl

theorem bind_apply {α β : Type} (op : CoreM α) (next : α → CoreM β) (c : Core) :
    (op >>= next) c = match op c with | (.ok a, c) => next a c | (.error e, c) => (.error e, c) := by
  change (ExceptT.bind op next) c = _
  simp only [ExceptT.bind, ExceptT.mk, Bind.bind, StateT.bind]
  rcases op c with ⟨_ | _, _⟩ <;> rfl

theorem onStack_apply {α : Type} (op : StackM α) (c : Core) :
    onStack op c =
      (match (op c.context.stack).1 with | .ok a => .ok a | .error e => .error (.stack e),
        c.withStack (op c.context.stack).2) := rfl

theorem getStack_apply (c : Core) : getStack c = (.ok c.context.stack, c) := rfl

theorem getWorld_apply (c : Core) : getWorld c = (.ok c.world, c) := rfl

theorem modifyStack_apply (change : RegisterStack → RegisterStack) (c : Core) :
    modifyStack change c = (.ok (), c.withStack (change c.context.stack)) := rfl

theorem pure_apply {α : Type} (a : α) (c : Core) : (pure a : CoreM α) c = (.ok a, c) := rfl

theorem tick_apply (c : Core) : tick c =
    if c.context.budget.isExhausted then (.ok true, c.withBudget c.context.budget.recordPreemption) else (.ok false, c) := by
  change (if c.context.budget.isExhausted then _ else _ : CoreM Bool) c = _
  cases c.context.budget.isExhausted <;> rfl

/-- An operation that reads and changes nothing but the register stack. -/
def Local {α : Type} (op : CoreM α) : Prop :=
  ∀ c d : Core, d.context.stack = c.context.stack → op d = ((op c).1, d.withStack (op c).2.context.stack)

theorem Local.pure {α : Type} (a : α) : Local (Pure.pure a : CoreM α) := by
  intro c d same
  simp only [pure_apply, ← same]
  rfl

theorem Local.throw {α : Type} (e : Failure) : Local (throw e : CoreM α) := by
  intro c d same
  change (_, _) = (_, _)
  simp only [Prod.mk.injEq]
  refine ⟨rfl, ?_⟩
  change d = d.withStack c.context.stack
  rw [← same]
  rfl

theorem Local.onStack {α : Type} (op : StackM α) : Local (onStack op) := by
  intro c d same
  obtain ⟨world, stack, budget, draining⟩ := d
  simp only at same
  subst same
  rfl

theorem Local.modifyStack (f : RegisterStack → RegisterStack) : Local (modifyStack f) := by
  intro c d same
  obtain ⟨world, stack, budget, draining⟩ := d
  simp only at same
  subst same
  rfl

theorem Local.getStack : Local getStack := by
  intro c d same
  obtain ⟨world, stack, budget, draining⟩ := d
  simp only at same
  subst same
  rfl

theorem Local.bind {α β : Type} {op : CoreM α} {next : α → CoreM β} (first : Local op)
    (rest : ∀ a, Local (next a)) : Local (op >>= next) := by
  intro c d same
  simp only [bind_apply, first c d same]
  rcases op c with ⟨_ | a, after⟩
  · rfl
  · exact rest a after (d.withStack after.context.stack) rfl

end Core

/-- Where an instruction leaves the script that runs it. -/
inductive Effect where
  | advance
  | jump (target : Nat)
  /-- The script waits for an operation that is done in a window. -/
  | await (pending : Pending) (r : Request) (w : Window)
  | leave

namespace Effect

def move (f : FunctionId) (w : Window) (pc : Nat) : Effect → Move
  | .advance => .go (.running f w (pc + 1))
  | .jump target => .go (.running f w target)
  | .await pending r callee => .call ⟨f, w, some (.script (pc + 1) (some pending))⟩ r callee
  | .leave => .go .returned

/-- The effect of an instruction that ends with an operation on the stack. -/
def after (effect : Effect) : Except StackError Unit × RegisterStack → Except Failure Effect × RegisterStack
  | (.ok (), s) => (.ok effect, s)
  | (.error e, s) => (.error (.stack e), s)

def storing (w : Window) (s : RegisterStack) (dst : Nat) :
    Except ScriptError Value → Except Failure Effect × RegisterStack
  | .ok v => (.ok .advance, w.set s dst v)
  | .error e => (.error (.script e), s)

theorem eq_of_after {effect reached : Effect} {result : Except StackError Unit × RegisterStack}
    (ok : (effect.after result).1 = .ok reached) : reached = effect := by
  rcases result with ⟨_ | _, _⟩
  · cases ok
  · exact (Except.ok.inj ok).symm

theorem eq_of_storing {reached : Effect} {w : Window} {s : RegisterStack} {dst : Nat}
    {value : Except ScriptError Value} (ok : (storing w s dst value).1 = .ok reached) : reached = .advance := by
  cases value with
  | error _ => cases ok
  | ok _ => exact (Except.ok.inj ok).symm

end Effect

namespace Instr

def pending? : Instr → Option Pending
  | call base _ nresults => some (.call base nresults)
  | getField dst _ _ => some (.index dst)
  | _ => none

end Instr

namespace Pending

/-- The window of the operation that a script with a frame at `w` waits for. -/
def window (p : Proto) (w : Window) : Pending → Window
  | .call base _ => w.shift (base + 1)
  | .index _ => p.scratch w

end Pending

namespace Proto

open CoopScript.Core

/-- The effect of an instruction on the registers; past the end of the code a call is over. -/
def effect (p : Proto) (w : Window) (s : RegisterStack) : Option Instr → Except Failure Effect × RegisterStack
  | none => Effect.leave.after (w.setTop 0 s)
  | some instr =>
    match instr with
    | .loadConst dst index => (.ok .advance, w.set s dst (p.constant index))
    | .loadNil dst => (.ok .advance, w.set s dst .nil)
    | .move dst src => (.ok .advance, w.set s dst (w.get s src))
    | .arith op dst lhs rhs => Effect.storing w s dst (CoopScript.arith op (w.get s lhs) (w.get s rhs))
    | .compare op dst lhs rhs =>
      Effect.storing w s dst ((compareValues op (w.get s lhs) (w.get s rhs)).map Value.bool)
    | .concat dst lhs rhs => Effect.storing w s dst (concatValues (w.get s lhs) (w.get s rhs))
    | .jump target => (.ok (.jump target), s)
    | .jumpIfNot cond target => (.ok (if (w.get s cond).isTruthy then .advance else .jump target), s)
    | .getField dst table key =>
      (.ok (.await (.index dst) (.index (w.get s table) (p.constant key)) (p.scratch w)), s)
    | .call base nargs nresults =>
      let callee := w.shift (base + 1)
      (Effect.await (.call base nresults) (.value (w.get s base)) callee).after (callee.setTop nargs s)
    | .ret first count =>
      Effect.leave.after (w.setTop count (if first ≠ 0 then s.move (w.offset + first) w.offset count else s))
    | .charge _ | .tick => (.ok .advance, s)

def stepOf (f : FunctionId) (w : Window) (pc : Nat) (c : Core) (done : Except Failure Effect × RegisterStack) :
    Except Failure Move × Core :=
  (done.1.map (Effect.move f w pc), c.withStack done.2)

variable {p : Proto} {f : FunctionId} {w : Window} {pc : Nat}

/-- An instruction other than accounting does its effect and leaves the budget alone. -/
theorem step_plain (c : Core) (plain : ∀ instr, p.code[pc]? = some instr → instr.isAccounting = false) :
    p.step f w pc c = stepOf f w pc c (p.effect w c.context.stack p.code[pc]?) := by
  cases found : p.code[pc]? with
  | none =>
    simp only [step, found, effect, stepOf, bind_apply, getStack_apply, onStack_apply]
    rcases w.setTop 0 c.context.stack with ⟨_ | _, _⟩ <;> rfl
  | some instr =>
    have kind := plain instr found
    cases instr with
    | charge _ | tick => cases kind
    | loadConst _ _ | loadNil _ | move _ _ | jump _ | getField _ _ _ =>
      simp only [step, found]
      rfl
    | jumpIfNot cond target =>
      simp only [step, found, effect, stepOf, bind_apply, getStack_apply]
      cases (w.get c.context.stack cond).isTruthy <;> rfl
    | arith op dst lhs rhs =>
      simp only [step, found, effect, stepOf, bind_apply, getStack_apply]
      rcases CoopScript.arith op (w.get c.context.stack lhs) (w.get c.context.stack rhs) with _ | _ <;> rfl
    | compare op dst lhs rhs =>
      simp only [step, found, effect, stepOf, bind_apply, getStack_apply]
      rcases compareValues op (w.get c.context.stack lhs) (w.get c.context.stack rhs) with _ | _ <;> rfl
    | concat dst lhs rhs =>
      simp only [step, found, effect, stepOf, bind_apply, getStack_apply]
      rcases concatValues (w.get c.context.stack lhs) (w.get c.context.stack rhs) with _ | _ <;> rfl
    | call base nargs nresults =>
      simp only [step, found, effect, stepOf, bind_apply, getStack_apply, onStack_apply]
      rcases (w.shift (base + 1)).setTop nargs c.context.stack with ⟨_ | _, _⟩ <;> rfl
    | ret first count =>
      simp only [step, found, effect, stepOf, bind_apply, getStack_apply]
      split
      · simp only [bind_apply, modifyStack_apply, onStack_apply, withStack_stack]
        rcases w.setTop count (c.context.stack.move (w.offset + first) w.offset count) with ⟨_ | _, _⟩ <;> rfl
      · simp only [bind_apply, pure_apply, onStack_apply]
        rcases w.setTop count c.context.stack with ⟨_ | _, _⟩ <;> rfl

theorem step_charge (c : Core) {cost : Nat} (found : p.code[pc]? = some (.charge cost)) :
    p.step f w pc c = (.ok (.go (.running f w (pc + 1))), c.withBudget (c.context.budget.charge cost)) := by
  simp only [step, found]
  rfl

theorem step_tick (c : Core) (found : p.code[pc]? = some .tick) :
    p.step f w pc c =
      if c.context.budget.isExhausted then
        (.ok (.suspend .preempted ⟨f, w, some (.script (pc + 1) none)⟩),
          c.withBudget c.context.budget.recordPreemption)
      else (.ok (.go (.running f w (pc + 1))), c) := by
  simp only [step, found, bind_apply, getStack_apply, tick_apply]
  cases c.context.budget.isExhausted <;> rfl

/-- A script is at a plain instruction or the end, at a charge, or at a tick. -/
theorem place_cases (p : Proto) (pc : Nat) : (∀ instr, p.code[pc]? = some instr → instr.isAccounting = false) ∨
    (∃ cost, p.code[pc]? = some (.charge cost)) ∨ p.code[pc]? = some .tick := by
  cases p.code[pc]? with
  | none => exact .inl (by simp)
  | some instr =>
    cases instr with
    | charge cost => exact .inr (.inl ⟨cost, rfl⟩)
    | tick => exact .inr (.inr rfl)
    | _ =>
      refine .inl ?_
      rintro _ ⟨⟩
      rfl

/-- Without a slice accounting does nothing, so every instruction is its effect. -/
theorem step_unmetered (c : Core) (unmetered : c.context.budget.slice = none) :
    p.step f w pc c = stepOf f w pc c (p.effect w c.context.stack p.code[pc]?) := by
  have disabled : c.context.budget.isEnabled = false := by simp [Budget.isEnabled, unmetered]
  rcases p.place_cases pc with plain | ⟨cost, found⟩ | found
  · exact step_plain c plain
  · rw [step_charge c found, found]
    simp only [Budget.charge, disabled]
    rfl
  · rw [step_tick c found, found]
    simp only [Budget.isExhausted, disabled, Bool.false_and]
    rfl

theorem effect_accounting {instr : Instr} (accounting : instr.isAccounting = true) (s : RegisterStack) :
    p.effect w s (some instr) = (.ok .advance, s) := by
  cases instr <;> first | rfl | cases accounting

/-- A script waits only for the operation of its instruction, in the window of that operation. -/
theorem effect_await {s : RegisterStack} {found : Option Instr} {pending : Pending} {r : Request} {callee : Window}
    (waits : (p.effect w s found).1 = .ok (.await pending r callee)) :
    found.bind Instr.pending? = some pending ∧ callee = pending.window p w := by
  cases found with
  | none => cases Effect.eq_of_after waits
  | some instr =>
    cases instr with
    | arith _ _ _ _ | compare _ _ _ _ | concat _ _ _ => cases Effect.eq_of_storing waits
    | jumpIfNot cond target =>
      simp only [effect] at waits
      split at waits <;> cases waits
    | call base nargs nresults =>
      cases Effect.eq_of_after waits
      exact ⟨rfl, rfl⟩
    | getField dst table key =>
      cases waits
      exact ⟨rfl, rfl⟩
    | ret _ _ => cases Effect.eq_of_after waits
    | _ => cases waits

/-- A script leaves the order of its code only at a jump. -/
theorem effect_jump {s : RegisterStack} {found : Option Instr} {target : Nat}
    (jumps : (p.effect w s found).1 = .ok (.jump target)) : found.bind Instr.target? = some target := by
  cases found with
  | none => cases Effect.eq_of_after jumps
  | some instr =>
    cases instr with
    | arith _ _ _ _ | compare _ _ _ _ | concat _ _ _ => cases Effect.eq_of_storing jumps
    | jumpIfNot cond destination =>
      simp only [effect] at jumps
      split at jumps <;> cases jumps
      rfl
    | jump destination =>
      cases jumps
      rfl
    | call _ _ _ | ret _ _ => cases Effect.eq_of_after jumps
    | _ => cases jumps

theorem enter_local (p : Proto) (w : Window) : Local (p.enter w) := by
  refine Local.getStack.bind fun s => ?_
  split
  · exact (Local.onStack _).bind fun _ => Local.onStack _
  · exact Local.onStack _

theorem resume_local (p : Proto) (w : Window) (pending : Option Pending) : Local (p.resume w pending) := by
  cases pending with
  | none => exact Local.onStack (w.setTop p.regs)
  | some pending =>
    cases pending <;> exact (Local.modifyStack _).bind fun _ => Local.onStack _

end Proto

namespace World

/-- Two worlds in which the same values have the same fields and handlers. -/
structure SameObjects (w v : World) : Prop where
  tables : v.tables = w.tables
  objects : v.objects = w.objects

namespace SameObjects

variable {w v : World}

theorem metamethod? (same : w.SameObjects v) (value : Value) (event : String) :
    v.metamethod? value event = w.metamethod? value event := by
  simp only [World.metamethod?, World.metatable?, World.table, World.userdata, same.tables, same.objects]
  rfl

theorem lookup (same : w.SameObjects v) (key : Value) (links : Nat) (object : Value) :
    v.lookup key links object = w.lookup key links object := by
  induction links generalizing object with
  | zero => rfl
  | succ links ih =>
    simp only [World.lookup, World.table, same.tables, same.metamethod?, ih]
    rfl

theorem defaultText (same : w.SameObjects v) (value : Value) : v.defaultText value = w.defaultText value := by
  simp only [World.defaultText, same.metamethod?]

end SameObjects

end World

namespace Request

open CoopScript.Core

/-- Calls a value that is no function through its handler, if it has one. -/
def callThrough (w : Window) (callee : Value) : Option Value → CoreM Activity
  | some (.function handler) => onStack (w.prepend callee) >>= fun _ => pure (.enter handler w)
  | _ => throw (.script (.notCallable callee.kind))

theorem serve_value {callee : Value} (other : ∀ f, callee ≠ .function f) (w : Window) (c : Core) :
    (value callee).serve w c = callThrough w callee (c.world.metamethod? callee "__call") c := by
  cases callee with
  | function f => exact absurd rfl (other f)
  | _ => rfl

private def concludeLookup (w : Window) (key : Value) : Except ScriptError Lookup → CoreM Activity
  | .ok (.found v) => onStack (w.ret [v]) >>= fun _ => pure .returned
  | .ok (.handler f object) => onStack (w.ret [object, key]) >>= fun _ => pure (.enter f w)
  | .error e => throw (.script e)

private def tell (w : Window) (v : Value) (text : String) : Option Value → CoreM Activity
  | some handler => onStack (w.ret [v]) >>= fun _ => pure (.dispatch (.value handler) w)
  | none => onStack (w.ret [.str text]) >>= fun _ => pure .returned

/-- What a request comes to once the world has been consulted. -/
private def consulted (world : World) (w : Window) : Request → CoreM Activity
  | .function f | .value (.function f) => pure (.enter f w)
  | .value callee => callThrough w callee (world.metamethod? callee "__call")
  | .index object key => concludeLookup w key (world.lookup key indexChainLimit object)
  | .text v => tell w v (world.defaultText v) (world.metamethod? v "__tostring")

private theorem serve_consulted (r : Request) (w : Window) (c : Core) : r.serve w c = r.consulted c.world w c := by
  cases r with
  | value callee => cases callee <;> rfl
  | _ => rfl

/-- Where the service of a request leads: it is over, or a function is called in the same window.
The handler for a text is first taken for a value to be called. -/
inductive Served (r : Request) (w : Window) : Activity → Prop where
  | returned : Served r w .returned
  | call (f : FunctionId) : Served r w (.enter f w)
  | handler (v handler : Value) (asked : r = .text v) : Served r w (.dispatch (.value handler) w)

private inductive Answered (r : Request) (w : Window) : CoreM Activity → Prop where
  | enter (f : FunctionId) : Answered r w (pure (.enter f w))
  | after (op : StackM Unit) {a : Activity} (served : Served r w a) : Answered r w (onStack op >>= fun _ => pure a)
  | failure (e : Failure) : Answered r w (throw e)

private theorem consulted_answered (world : World) (w : Window) (r : Request) : Answered r w (r.consulted world w) := by
  have called (callee : Value) (handler : Option Value) : Answered r w (callThrough w callee handler) := by
    unfold callThrough
    split
    · exact .after _ (.call _)
    · exact .failure _
  cases r with
  | function f => exact .enter f
  | value callee =>
    cases callee with
    | function f => exact .enter f
    | _ =>
      simp only [consulted]
      exact called _ _
  | index object key =>
    simp only [consulted]
    unfold concludeLookup
    split
    · exact .after _ .returned
    · exact .after _ (.call _)
    · exact .failure _
  | text v =>
    simp only [consulted]
    unfold tell
    split
    · exact .after _ (.handler _ _ rfl)
    · exact .after _ .returned

/-- Serving a request reads objects and registers, and changes registers only. -/
theorem serve_local (r : Request) (w : Window) (c d : Core) (same : c.world.SameObjects d.world)
    (stack : d.context.stack = c.context.stack) :
    r.serve w d = ((r.serve w c).1, d.withStack (r.serve w c).2.context.stack) := by
  have consulted_same : r.consulted d.world w = r.consulted c.world w := by
    cases r with
    | function f => rfl
    | value callee => cases callee <;> simp only [consulted, same.metamethod?]
    | index object key => simp only [consulted, same.lookup]
    | text v => simp only [consulted, same.metamethod?, same.defaultText]
  have answered := consulted_answered c.world w r
  rw [serve_consulted, serve_consulted, consulted_same]
  generalize r.consulted c.world w = op at answered
  cases answered with
  | enter f => exact Local.pure (Activity.enter f w) c d stack
  | after op served => exact (Local.onStack op).bind (fun _ => .pure _) c d stack
  | failure e => exact Local.throw e c d stack

theorem serve_served {r : Request} {w : Window} {c : Core} {a : Activity} (ran : (r.serve w c).1 = .ok a) :
    r.Served w a := by
  have answered := consulted_answered c.world w r
  rw [serve_consulted] at ran
  generalize r.consulted c.world w = op at answered ran
  cases answered with
  | enter f =>
    cases ran
    exact .call f
  | after op served =>
    simp only [bind_apply, onStack_apply] at ran
    cases stacked : (op c.context.stack).1 with
    | error e =>
      rw [stacked] at ran
      cases ran
    | ok _ =>
      rw [stacked] at ran
      cases ran
      exact served
  | failure e => cases ran

end Request

open CoopScript.Core in
/-- An answer is carried out on the register stack, unless it is to spend first. -/
theorem Action.perform_cases (f : FunctionId) (w : Window) (a : Action) : Local (a.perform f w) ∨
    ∃ cost next, (∀ spent, Local (next spent)) ∧
      a.perform f w = (modifyBudget (Budget.charge · cost) >>= fun _ => tick >>= next) := by
  cases a with
  | done | suspend _ _ | index _ _ _ | textOf _ _ => exact .inl (.pure _)
  | ret _ | takeOver _ => exact .inl ((Local.onStack _).bind fun _ => .pure _)
  | call _ _ _ _ => exact .inl ((Local.onStack _).bind fun _ => (Local.onStack _).bind fun _ => .pure _)
  | forward _ receiver _ =>
    cases receiver with
    | none => exact .inl (.pure _)
    | some _ => exact .inl ((Local.onStack _).bind fun _ => .pure _)
  | spend cost _ =>
    refine .inr ⟨cost, _, fun spent => ?_, rfl⟩
    cases spent <;> exact .pure _

end CoopScript
