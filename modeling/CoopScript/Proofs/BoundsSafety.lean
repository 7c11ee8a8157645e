import CoopScript.Proofs.SoundFrames

/-! Bounds of scripts. Instructions address registers and constants without a check, so here they
are run by a machine that checks: it stops dead where an access lies outside the registers of the
frame, the slots of the stack or the pool of constants. On verified code it never stops, and does
what the machine without checks does. -/

namespace CoopScript

/-- Steps that come to nothing where an access is out of bounds. -/
abbrev CheckedM := ExceptT Failure (StateT Core Option)

namespace Checked

open CoopScript.Core

def unchecked {α : Type} (op : CoreM α) : CheckedM α := fun c => some (op c)

def require (holds : Prop) [Decidable holds] : CheckedM Unit := fun c => if holds then some (.ok (), c) else none

def get (i : Nat) : CheckedM Value := do
  let s ← unchecked getStack
  require (i < s.capacity)
  return s.get i

def set (i : Nat) (v : Value) : CheckedM Unit := do
  let s ← unchecked getStack
  require (i < s.capacity)
  unchecked (modifyStack (·.set i v))

/-- Moves the value of a slot out, leaving nil. -/
def take (i : Nat) : CheckedM Value := do
  let held ← get i
  set i .nil
  return held

/-- The value of a slot below the cursor; there is nil from the cursor on. -/
def arg (w : Window) (i : Nat) : CheckedM Value := do
  let s ← unchecked getStack
  if i < w.top s then get (w.offset + i) else pure .nil

/-- The result at an index among those that a call has left, or nil if there are fewer. -/
def takeResult (callee : Window) (produced i : Nat) : CheckedM Value :=
  if i < produced then take (callee.offset + i) else pure .nil

end Checked

namespace Proto

open CoopScript.Core Checked

def checkedConstant (p : Proto) (i : Nat) : CheckedM Value := do
  require (i < p.constants.length)
  return p.constant i

/-- An access to a register, which has to belong to the frame. -/
def onRegister {α : Type} (p : Proto) (w : Window) (r : Nat) (access : Nat → CheckedM α) : CheckedM α := do
  require (r < p.regs)
  access (w.offset + r)

def load (p : Proto) (w : Window) (r : Nat) : CheckedM Value := p.onRegister w r get

def store (p : Proto) (w : Window) (r : Nat) (v : Value) : CheckedM Unit := p.onRegister w r (set · v)

/-- Takes the results of a call one by one, and then empties the slots of those that are not
wanted. -/
def checkedFinish (p : Proto) (w : Window) : Pending → CheckedM Unit
  | .call base nresults => do
    let callee := w.shift (base + 1)
    let produced := callee.top (← unchecked getStack)
    forM (List.range' 0 nresults) fun i => takeResult callee produced i >>= p.store w (base + i)
    forM (List.range' nresults (produced - nresults)) fun i => take (callee.offset + i) >>= fun _ => pure ()
    unchecked (onStack (w.setTop p.regs))
  | .index dst => do
    let value ← arg (p.scratch w) 0
    p.store w dst value
    unchecked (onStack (w.setTop p.regs))

def checkedResume (p : Proto) (w : Window) : Option Pending → CheckedM Unit
  | some pending => p.checkedFinish w pending
  | none => unchecked (onStack (w.setTop p.regs))

/-- Runs the instruction at `pc`, with every access to a register or a constant checked. -/
def checkedStep (p : Proto) (f : FunctionId) (w : Window) (pc : Nat) : CheckedM Move := do
  let waiting (pending : Option Pending) : Frame := ⟨f, w, some (.script (pc + 1) pending)⟩
  let goOn : Move := .go (.running f w (pc + 1))
  match p.code[pc]? with
  | none =>
    unchecked (onStack (w.setTop 0))
    return .go .returned
  | some instr =>
    match instr with
    | .loadConst dst index =>
      p.store w dst (← p.checkedConstant index)
      return goOn
    | .loadNil dst =>
      p.store w dst .nil
      return goOn
    | .move dst src =>
      p.store w dst (← p.load w src)
      return goOn
    | .arith op dst lhs rhs =>
      let left ← p.load w lhs
      let right ← p.load w rhs
      p.store w dst (← unchecked (raised (arith op left right)))
      return goOn
    | .compare op dst lhs rhs =>
      let left ← p.load w lhs
      let right ← p.load w rhs
      p.store w dst (.bool (← unchecked (raised (compareValues op left right))))
      return goOn
    | .concat dst lhs rhs =>
      let left ← p.load w lhs
      let right ← p.load w rhs
      p.store w dst (← unchecked (raised (concatValues left right)))
      return goOn
    | .jump target => return .go (.running f w target)
    | .jumpIfNot cond target =>
      let held ← p.load w cond
      return if held.isTruthy then goOn else .go (.running f w target)
    | .getField dst table key =>
      let object ← p.load w table
      let name ← p.checkedConstant key
      return .call (waiting (some (.index dst))) (.index object name) (p.scratch w)
    | .call base nargs nresults =>
      let function ← p.load w base
      let callee := w.shift (base + 1)
      unchecked (onStack (callee.setTop nargs))
      return .call (waiting (some (.call base nresults))) (.value function) callee
    | .ret first count =>
      if first ≠ 0 then
        forM (List.range' 0 count) fun i => p.onRegister w (first + i) take >>= p.store w i
      unchecked (onStack (w.setTop count))
      return .go .returned
    | .charge cost =>
      unchecked (modifyBudget (Budget.charge · cost))
      return goOn
    | .tick =>
      if ← unchecked tick then return .suspend .preempted (waiting none)
      else return goOn

end Proto

open CoopScript.Core in
/-- One step of an activity, in which scripts are run with checks. -/
def Activity.checkedStep (a : Activity) : CheckedM Move := do
  let world ← Checked.unchecked getWorld
  match a with
  | .running f w pc =>
    match world.callable f with
    | .script p => p.checkedStep f w pc
    | _ => Checked.unchecked a.step
  | .resume f w (.script pc pending) =>
    match world.callable f with
    | .script p =>
      p.checkedResume w pending
      return .go (.running f w pc)
    | _ => Checked.unchecked a.step
  | _ => Checked.unchecked a.step

namespace Checked

open CoopScript.Core

variable {c : Core}

theorem bind_apply {α β : Type} (op : CheckedM α) (next : α → CheckedM β) (c : Core) :
    (op >>= next) c =
      match op c with | none => none | some (.ok a, c) => next a c | some (.error e, c) => some (.error e, c) := by
  change (ExceptT.bind op next) c = _
  simp only [ExceptT.bind, ExceptT.mk, Bind.bind, StateT.bind]
  rcases op c with _ | ⟨_ | _, _⟩ <;> rfl

theorem pure_apply {α : Type} (a : α) (c : Core) : (pure a : CheckedM α) c = some (.ok a, c) := rfl

theorem unchecked_apply {α : Type} (op : CoreM α) (c : Core) : unchecked op c = some (op c) := rfl

theorem require_apply {holds : Prop} [Decidable holds] (fact : holds) (c : Core) : require holds c = some (.ok (), c) :=
  if_pos fact

theorem get_apply {i : Nat} (inside : i < c.context.stack.capacity) : get i c = some (.ok (c.context.stack.get i), c) := by
  simp only [get, bind_apply, unchecked_apply, getStack_apply, require_apply inside, pure_apply]

theorem set_apply {i : Nat} (inside : i < c.context.stack.capacity) (v : Value) :
    set i v c = some (.ok (), c.withStack (c.context.stack.set i v)) := by
  simp only [set, bind_apply, unchecked_apply, getStack_apply, require_apply inside, modifyStack_apply]

theorem take_apply {i : Nat} (inside : i < c.context.stack.capacity) :
    take i c = some (.ok (c.context.stack.get i), c.withStack (c.context.stack.set i .nil)) := by
  simp only [take, bind_apply, get_apply inside, set_apply inside, pure_apply]

theorem arg_apply {w : Window} {i : Nat} (inside : i < w.top c.context.stack → w.offset + i < c.context.stack.capacity) :
    arg w i c = some (.ok (w.arg c.context.stack i), c) := by
  simp only [arg, bind_apply, unchecked_apply, getStack_apply, Window.arg]
  split
  · next more => exact get_apply (inside more)
  · rfl

/-- A loop of changes to the stack that are all in bounds. -/
theorem forM_apply {body : Nat → CheckedM Unit} {change : Nat → RegisterStack → RegisterStack} {indices : List Nat}
    {capacity : Nat} (kept : ∀ i (s : RegisterStack), s.SameShape (change i s))
    (inside : ∀ i ∈ indices, ∀ c : Core, c.context.stack.capacity = capacity →
      body i c = some (.ok (), c.withStack (change i c.context.stack)))
    {c : Core} (start : c.context.stack.capacity = capacity) : forM indices body c =
      some (.ok (), c.withStack (indices.foldl (fun s i => change i s) c.context.stack)) := by
  induction indices generalizing c with
  | nil => rfl
  | cons i rest ih =>
    rw [List.forM_cons, bind_apply, inside i List.mem_cons_self c start]
    refine ih (fun j member => inside j (List.mem_cons_of_mem _ member)) ?_
    exact (kept i c.context.stack).capacity.trans start

end Checked

namespace RegisterStack

theorem clear_eq_foldl (s : RegisterStack) (first start count : Nat) : s.clear (first + start) count =
    (List.range' start count).foldl (fun s i => s.set (first + i) .nil) s := by
  induction count generalizing s start with
  | zero => rfl
  | succ count ih =>
    rw [List.range'_succ, List.foldl_cons]
    exact ih _ (start + 1)

/-- One value moves to another slot, leaving nil. -/
def moved (s : RegisterStack) (source target : Nat) : RegisterStack := (s.set source .nil).set target (s.get source)

theorem moved_sameShape (s : RegisterStack) (source target : Nat) : s.SameShape (s.moved source target) :=
  (s.set_sameShape _ _).trans (set_sameShape _ _ _)

theorem move_eq_foldl (s : RegisterStack) (source target start count : Nat) :
    s.move (source + start) (target + start) count =
      (List.range' start count).foldl (fun s i => s.moved (source + i) (target + i)) s := by
  induction count generalizing s start with
  | zero => rfl
  | succ count ih =>
    rw [List.range'_succ, List.foldl_cons]
    exact ih _ (start + 1)

/-- One result moves down to its register, if there is one, and else nil is put there. -/
def collect (source target produced i : Nat) (s : RegisterStack) : RegisterStack :=
  if i < produced then s.moved (source + i) (target + i) else s.set (target + i) .nil

theorem collect_sameShape (source target produced i : Nat) (s : RegisterStack) :
    s.SameShape (s.collect source target produced i) := by
  rw [collect]
  split
  · exact s.moved_sameShape _ _
  · exact s.set_sameShape _ _

theorem foldl_collect (s : RegisterStack) (source target produced count : Nat) :
    (List.range' 0 count).foldl (fun s i => s.collect source target produced i) s =
      (s.move source target (min count produced)).clear (target + produced) (count - produced) := by
  have split : List.range' 0 count =
      List.range' 0 (min count produced) ++ List.range' (0 + min count produced) (count - produced) := by
    rw [List.range'_append_1]
    congr 1
    omega
  have there : (List.range' 0 (min count produced)).foldl (fun s i => s.collect source target produced i) s =
      s.move source target (min count produced) := by
    refine Eq.trans (List.foldl_ext _ _ _ ?_) (s.move_eq_foldl source target 0 _).symm
    intro t i member
    have inside : i < produced := by
      have range := List.mem_range'_1.mp member
      omega
    rw [collect, if_pos inside]
  have missing (t : RegisterStack) :
      (List.range' (0 + min count produced) (count - produced)).foldl (fun s i => s.collect source target produced i) t =
        t.clear (target + produced) (count - produced) := by
    by_cases enough : count ≤ produced
    · rw [Nat.sub_eq_zero_of_le enough]
      rfl
    · have all : 0 + min count produced = produced := by omega
      rw [all, clear_eq_foldl]
      refine List.foldl_ext _ _ _ ?_
      intro t i member
      have outside : ¬i < produced := by
        have range := List.mem_range'_1.mp member
        omega
      rw [collect, if_neg outside]
  rw [split, List.foldl_append, there, missing]

end RegisterStack

namespace Proto

open CoopScript.Core Checked

variable {p : Proto} {w : Window} {c : Core}

theorem onRegister_eq {α : Type} {r : Nat} (inside : r < p.regs) (access : Nat → CheckedM α) (c : Core) :
    p.onRegister w r access c = access (w.offset + r) c := by
  simp only [onRegister, Checked.bind_apply, require_apply inside]

theorem load_apply {r : Nat} (inside : r < p.regs) (room : w.offset + p.regs ≤ c.context.stack.capacity) :
    p.load w r c = some (.ok (w.get c.context.stack r), c) := by
  rw [load, onRegister_eq inside]
  exact get_apply (by omega)

theorem store_apply {r : Nat} (inside : r < p.regs) (room : w.offset + p.regs ≤ c.context.stack.capacity) (v : Value) :
    p.store w r v c = some (.ok (), c.withStack (w.set c.context.stack r v)) := by
  rw [store, onRegister_eq inside]
  exact set_apply (by omega) v

theorem checkedConstant_apply {i : Nat} (inside : i < p.constants.length) (c : Core) :
    p.checkedConstant i c = some (.ok (p.constant i), c) := by
  simp only [checkedConstant, Checked.bind_apply, require_apply inside, Checked.pure_apply]

theorem take_store_apply {i r : Nat} (inside : i < c.context.stack.capacity) (within : r < p.regs)
    (room : w.offset + p.regs ≤ c.context.stack.capacity) :
    (take i >>= p.store w r) c = some (.ok (), c.withStack (c.context.stack.moved i (w.offset + r))) := by
  rw [Checked.bind_apply, take_apply inside]
  refine store_apply (c := c.withStack _) within ?_ _
  rw [withStack_stack, (c.context.stack.set_sameShape _ _).capacity]
  exact room

theorem forM_return_apply {first count : Nat} (inside : first + count ≤ p.regs)
    (room : w.offset + p.regs ≤ c.context.stack.capacity) :
    forM (List.range' 0 count) (fun i => p.onRegister w (first + i) take >>= p.store w i) c =
      some (.ok (), c.withStack (c.context.stack.move (w.offset + first) w.offset count)) := by
  refine (forM_apply (fun i s => s.moved_sameShape (w.offset + first + i) (w.offset + i)) ?_ rfl).trans ?_
  · intro i member d same
    have range := List.mem_range'_1.mp member
    have source : first + i < p.regs := by omega
    have taken := take_store_apply (p := p) (w := w) (c := d) (by omega : w.offset + (first + i) < _)
      (by omega : i < p.regs) (by omega)
    rw [Checked.bind_apply] at taken ⊢
    rw [onRegister_eq source, taken, Nat.add_assoc]
  · congr 3
    exact (c.context.stack.move_eq_foldl (w.offset + first) w.offset 0 count).symm

theorem forM_results_apply {base produced count : Nat} (inside : base + count ≤ p.regs)
    (room : w.offset + p.regs ≤ c.context.stack.capacity)
    (there : ∀ i, i < produced → (w.shift (base + 1)).offset + i < c.context.stack.capacity) :
    forM (List.range' 0 count) (fun i => takeResult (w.shift (base + 1)) produced i >>= p.store w (base + i)) c =
      some (.ok (), c.withStack ((c.context.stack.move (w.shift (base + 1)).offset (w.offset + base)
        (min count produced)).clear (w.offset + base + produced) (count - produced))) := by
  have shape := RegisterStack.collect_sameShape (w.shift (base + 1)).offset (w.offset + base) produced
  refine (forM_apply shape ?_ rfl).trans ?_
  · intro i member d same
    have range := List.mem_range'_1.mp member
    by_cases more : i < produced
    · have taken := take_store_apply (p := p) (w := w) (c := d) (same ▸ there i more)
        (by omega : base + i < p.regs) (by omega)
      simp only [takeResult, more, if_true, RegisterStack.collect]
      rw [taken, Nat.add_assoc]
    · have stored := store_apply (p := p) (w := w) (c := d) (by omega : base + i < p.regs) (by omega) .nil
      simp only [takeResult, more, if_false, RegisterStack.collect, Checked.bind_apply, Checked.pure_apply]
      rw [stored, Window.set, Nat.add_assoc]
  · rw [RegisterStack.foldl_collect]

theorem forM_rest_apply {callee : Window} {start count : Nat}
    (inside : count = 0 ∨ callee.offset + start + count ≤ c.context.stack.capacity) :
    forM (List.range' start count) (fun i => take (callee.offset + i) >>= fun _ => pure ()) c =
      some (.ok (), c.withStack (c.context.stack.clear (callee.offset + start) count)) := by
  refine (forM_apply (fun i s => s.set_sameShape (callee.offset + i) .nil) ?_ rfl).trans ?_
  · intro i member d same
    have range := List.mem_range'_1.mp member
    rw [Checked.bind_apply, take_apply (by omega)]
    rfl
  · rw [RegisterStack.clear_eq_foldl]

theorem checkedFinish_apply {pending : Pending} (fits : pending.Fits p)
    (room : w.offset + p.regs ≤ c.context.stack.capacity) (held : c.context.stack.top ≤ c.context.stack.capacity) :
    p.checkedFinish w pending c = some (p.finish w pending c) := by
  cases pending with
  | call base nresults =>
    have there (i : Nat) (more : i < (w.shift (base + 1)).top c.context.stack) :
        (w.shift (base + 1)).offset + i < c.context.stack.capacity := by
      simp only [Window.top] at more
      omega
    simp only [checkedFinish, Checked.bind_apply, unchecked_apply, getStack_apply]
    rw [forM_results_apply fits room there]
    simp only
    rw [forM_rest_apply]
    · rfl
    · simp only [withStack_stack, RegisterStack.clear_capacity, (RegisterStack.move_sameShape _ _ _ _).capacity,
        Window.top]
      omega
  | index dst =>
    have value : (p.scratch w).offset + 0 < c.context.stack.capacity ∨ ¬0 < (p.scratch w).top c.context.stack := by
      simp only [Window.top]
      omega
    simp only [checkedFinish, Checked.bind_apply]
    rw [arg_apply (by omega)]
    simp only
    rw [store_apply fits room]
    rfl

theorem checkedResume_apply {pending : Option Pending} (fits : ∀ x, pending = some x → x.Fits p)
    (room : w.offset + p.regs ≤ c.context.stack.capacity) (held : c.context.stack.top ≤ c.context.stack.capacity) :
    p.checkedResume w pending c = some (p.resume w pending c) := by
  cases pending with
  | none => rfl
  | some pending => exact checkedFinish_apply (fits pending rfl) room held

private theorem unchanged_of_raised {α : Type} {result : Except ScriptError α} {a : α} {d : Core}
    (ran : raised result c = (.ok a, d)) : d = c := by
  cases result <;> cases ran
  rfl

/-- The accesses of a verified instruction are those that it demands. -/
theorem checkedStep_apply (verified : p.verified = .ok p) (framed : p.Framed w c.context.stack) (f : FunctionId)
    (pc : Nat) : p.checkedStep f w pc c = some (p.step f w pc c) := by
  have room := framed.fits
  cases found : p.code[pc]? with
  | none =>
    simp only [checkedStep, step, found, Checked.bind_apply, Core.bind_apply, unchecked_apply, getStack_apply]
    rcases onStack (w.setTop 0) c with ⟨_ | _, _⟩ <;> rfl
  | some instr =>
    have registers {stop : Nat} (demanded : .registers stop ∈ instr.operands) : stop ≤ p.regs :=
      registers_of_verified verified found demanded
    have load {r : Nat} (demanded : .registers (r + 1) ∈ instr.operands) := load_apply (registers demanded) room
    have store {r : Nat} (demanded : .registers (r + 1) ∈ instr.operands) (v : Value) :=
      store_apply (registers demanded) room v
    have constant {i : Nat} (demanded : .constant i ∈ instr.operands) :=
      checkedConstant_apply (meets_of_verified verified found demanded) c
    cases instr with
    | loadConst dst index =>
      simp only [checkedStep, step, found, Checked.bind_apply, constant (i := index) (by simp [Instr.operands]),
        store (r := dst) (by simp [Instr.operands])]
      rfl
    | loadNil dst =>
      simp only [checkedStep, step, found, Checked.bind_apply, store (r := dst) (by simp [Instr.operands])]
      rfl
    | move dst src =>
      simp only [checkedStep, step, found, Checked.bind_apply, load (r := src) (by simp [Instr.operands]),
        store (r := dst) (by simp [Instr.operands])]
      rfl
    | arith op dst lhs rhs | compare op dst lhs rhs | concat dst lhs rhs =>
      simp only [checkedStep, step, found, Checked.bind_apply, Core.bind_apply, unchecked_apply, getStack_apply,
        load (r := lhs) (by simp [Instr.operands]), load (r := rhs) (by simp [Instr.operands])]
      rcases ran : raised _ c with ⟨_ | v, d⟩
      · rfl
      · cases unchanged_of_raised ran
        simp only [store (r := dst) (by simp [Instr.operands])]
        rfl
    | jump target =>
      simp only [checkedStep, step, found]
      rfl
    | jumpIfNot cond target =>
      simp only [checkedStep, step, found, Checked.bind_apply, Core.bind_apply, getStack_apply,
        load (r := cond) (by simp [Instr.operands])]
      split <;> rfl
    | getField dst table key =>
      simp only [checkedStep, step, found, Checked.bind_apply, load (r := table) (by simp [Instr.operands]),
        constant (i := key) (by simp [Instr.operands])]
      rfl
    | call base nargs nresults =>
      simp only [checkedStep, step, found, Checked.bind_apply, Core.bind_apply, unchecked_apply, getStack_apply,
        load (r := base) (by simp [Instr.operands])]
      rcases onStack ((w.shift (base + 1)).setTop nargs) c with ⟨_ | _, _⟩ <;> rfl
    | ret first count =>
      simp only [checkedStep, step, found, Core.bind_apply, getStack_apply]
      split
      · simp only [Checked.bind_apply, Core.bind_apply, unchecked_apply, modifyStack_apply]
        rw [forM_return_apply (registers (by simp [Instr.operands])) room]
        simp only
        rcases onStack (w.setTop count) _ with ⟨_ | _, _⟩ <;> rfl
      · simp only [Checked.bind_apply, Core.bind_apply, unchecked_apply]
        rcases onStack (w.setTop count) _ with ⟨_ | _, _⟩ <;> rfl
    | charge cost =>
      simp only [checkedStep, step, found]
      rfl
    | tick =>
      simp only [checkedStep, step, found, Checked.bind_apply, Core.bind_apply, unchecked_apply, getStack_apply, tick_apply]
      cases c.context.budget.isExhausted <;> rfl

end Proto

namespace Activity

open Checked

theorem checkedStep_apply {a : Activity} {c : Core} (works : a.Runs Callable.Shipped c.world)
    (held : c.context.stack.top ≤ c.context.stack.capacity) (supported : a.Supported c.world c.context.stack) :
    a.checkedStep c = some (a.step c) := by
  cases a with
  | returned | dispatch _ _ | enter _ _ => rfl
  | running f w pc =>
    obtain ⟨p, found, framed⟩ := supported
    have verified : (c.world.callable f).Shipped := works.allowed f rfl
    rw [found] at verified
    simp only [checkedStep, Checked.bind_apply, unchecked_apply, Core.getWorld_apply, found]
    rw [step_running found]
    exact Proto.checkedStep_apply verified framed f pc
  | resume f w saved =>
    cases saved with
    | script pc pending =>
      cases found : c.world.callable f with
      | script p =>
        have fits (x : Pending) (waits : pending = some x) : x.Fits p := supported.fits p pc x found (waits ▸ rfl)
        simp only [checkedStep, Checked.bind_apply, unchecked_apply, Core.getWorld_apply, found]
        rw [Proto.checkedResume_apply fits (supported.room p found) held, step_resume, found]
        simp only [Callable.resume, Core.bind_apply, Core.getStack_apply]
        rcases p.resume w pending c with ⟨_ | _, _⟩ <;> rfl
      | _ =>
        simp only [checkedStep, Checked.bind_apply, unchecked_apply, Core.getWorld_apply, found]
    | _ => rfl

end Activity

namespace Machine

/-- From the call of a verified script to its end, through the calls it makes and all suspensions,
no access is out of bounds, and in a drain nothing fails but for an error that code raises or for
want of room on the stack. -/
theorem During.inBounds {m last : Machine} {f : FunctionId} {w : Window} (entered : m.activity = .enter f w)
    (held : m.core.context.stack.top ≤ m.core.context.stack.capacity)
    (during : During Callable.Shipped m.frames m last) (works : last.activity.Runs Callable.Shipped last.core.world) :
    last.activity.checkedStep last.core = some (last.activity.step last.core) ∧
      (m.core.context.draining = true → (last.activity = .returned → last.frames ≠ m.frames) →
        ∀ e halted, last.step = .inr (.failed e, halted) →
          (∃ cause, e = .script cause) ∨ ∃ cause, e = .stack cause) := by
  have start : m.Holds .sound m.frames := by
    refine ⟨held, ?_, [], rfl, by simp⟩
    rw [entered]
    trivial
  have holds := during.holds start
  refine ⟨Activity.checkedStep_apply works holds.state holds.activity, ?_⟩
  intro draining ongoing e halted failed
  have ordinary := holds.ordinary works ongoing (during.draining draining) failed
  cases e with
  | stack cause => exact .inr ⟨cause, rfl⟩
  | script cause => exact .inl ⟨cause, rfl⟩
  | protocol misuse => exact absurd rfl (ordinary misuse)

private def asking : Machine where
  core :=
    { world := { functions := #[.script ⟨"asking", 0, 3, [.function ⟨1⟩, .bool true],
        [.loadConst 0 0, .loadConst 1 1, .call 0 1 3, .ret 1 2]⟩, .builtin .pause] }
      context := { stack := ⟨#[.nil, .nil, .nil], 0⟩, budget := Budget.new {}, draining := true } }
  activity := .enter ⟨0⟩ ⟨0⟩

/-- A script without a slot to spare asks for three results of a call that was suspended and left
one. -/
theorem During.inBounds_asking : (asking.driven 9).activity = .resume ⟨0⟩ ⟨0⟩ (.script 3 (some (.call 0 3))) ∧
    (asking.driven 9).activity.checkedStep (asking.driven 9).core =
      some ((asking.driven 9).activity.step (asking.driven 9).core) := by
  have shipped : asking.core.world.Shipped := by decide
  obtain ⟨during, works⟩ := During.driven shipped .here 9
  have inBounds := During.inBounds (m := asking) rfl (Nat.zero_le _) during works
  exact ⟨by cbv, inBounds.1⟩

end Machine

end CoopScript
