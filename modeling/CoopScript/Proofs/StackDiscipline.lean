import CoopScript.Proofs.FrameRegisters

/-! The discipline of the register stack. A window is only an offset into slots that all calls
share, so what keeps calls apart is what each operation leaves alone: the slots below a floor at
or under its window, the number of slots, and the emptiness of every slot from the cursor on. -/

namespace CoopScript

namespace RegisterStack

/-- The cursor is inside, and there is nothing from it on. -/
structure Clear (s : RegisterStack) : Prop where
  fits : s.top ≤ s.capacity
  empty : ∀ i, s.top ≤ i → s.get i = .nil

/-- What changes from one stack to the next lies at or above the floor. -/
structure Confined (floor : Nat) (s t : RegisterStack) : Prop where
  capacity : t.capacity = s.capacity
  fits : s.top ≤ s.capacity → t.top ≤ t.capacity
  below : floor ≤ s.top → ∀ i, i < floor → t.get i = s.get i
  top : floor ≤ s.top → floor ≤ t.top

structure Orderly (floor : Nat) (s t : RegisterStack) : Prop extends Confined floor s t where
  clear : s.Clear → t.Clear

variable {floor : Nat} {s t u : RegisterStack}

theorem Confined.refl (floor : Nat) (s : RegisterStack) : Confined floor s s :=
  ⟨rfl, id, fun _ _ _ => rfl, id⟩

theorem Confined.trans (first : Confined floor s t) (rest : Confined floor t u) : Confined floor s u := by
  refine ⟨rest.capacity.trans first.capacity, fun fits => rest.fits (first.fits fits), ?_, ?_⟩
  · intro above i low
    rw [rest.below (first.top above) i low, first.below above i low]
  · intro above
    exact rest.top (first.top above)

theorem Orderly.refl (floor : Nat) (s : RegisterStack) : Orderly floor s s := ⟨.refl floor s, id⟩

theorem Orderly.trans (first : Orderly floor s t) (rest : Orderly floor t u) : Orderly floor s u :=
  ⟨first.toConfined.trans rest.toConfined, fun clear => rest.clear (first.clear clear)⟩

theorem SameShape.confined (same : s.SameShape t) (below : ∀ i, i < floor → t.get i = s.get i) :
    Confined floor s t := by
  refine ⟨same.capacity, ?_, fun _ => below, ?_⟩
  · intro fits
    rw [same.top, same.capacity]
    exact fits
  · intro above
    rw [same.top]
    exact above

theorem SameShape.clear (same : s.SameShape t) (clear : s.Clear) (empty : ∀ i, s.top ≤ i → t.get i = .nil) :
    t.Clear := by
  refine ⟨?_, ?_⟩
  · rw [same.top, same.capacity]
    exact clear.fits
  · rw [same.top]
    exact empty

theorem SameShape.refl (s : RegisterStack) : s.SameShape s := ⟨rfl, rfl⟩

theorem SameShape.trans (first : s.SameShape t) (rest : t.SameShape u) : s.SameShape u :=
  ⟨rest.top.trans first.top, rest.capacity.trans first.capacity⟩

theorem get_set (s : RegisterStack) (i : Nat) (v : Value) (j : Nat) :
    (s.set i v).get j = if j = i ∧ i < s.capacity then v else s.get j := by
  simp only [get, set, capacity, Array.getD_eq_getD_getElem?, Array.getElem?_setIfInBounds]
  by_cases same : j = i
  · subst same
    by_cases inside : j < s.slots.size
    · simp [inside]
    · simp [inside]
  · have other : i ≠ j := fun equal => same equal.symm
    simp [same, other]

theorem get_set_of_ne (s : RegisterStack) (v : Value) {i j : Nat} (other : j ≠ i) : (s.set i v).get j = s.get j := by
  rw [get_set, if_neg]
  intro ⟨same, _⟩
  exact other same

theorem get_of_capacity_le {i : Nat} (outside : s.capacity ≤ i) : s.get i = .nil := by
  simp only [capacity] at outside
  simp [get, Array.getD_eq_getD_getElem?, Array.getElem?_eq_none outside]

theorem get_set_nil (s : RegisterStack) (i j : Nat) : (s.set i .nil).get j = if j = i then .nil else s.get j := by
  rw [get_set]
  by_cases same : j = i
  · subst same
    by_cases inside : j < s.capacity
    · simp [inside]
    · simp [inside, get_of_capacity_le (Nat.not_lt.mp inside)]
  · simp [same]

theorem clear_sameShape (s : RegisterStack) (first count : Nat) : s.SameShape (s.clear first count) := by
  induction count generalizing s first with
  | zero => exact .refl s
  | succ count ih => exact (s.set_sameShape first .nil).trans (ih _ _)

theorem get_clear (s : RegisterStack) (first count j : Nat) :
    (s.clear first count).get j = if first ≤ j ∧ j < first + count then .nil else s.get j := by
  induction count generalizing s first with
  | zero =>
    rw [if_neg (by omega)]
    rfl
  | succ count ih =>
    simp only [clear]
    rw [ih, get_set_nil]
    by_cases same : j = first
    · subst same
      simp
    · by_cases later : first + 1 ≤ j ∧ j < first + 1 + count
      · rw [if_pos later, if_pos (by omega)]
      · rw [if_neg later, if_neg same, if_neg (by omega)]

theorem write_sameShape (s : RegisterStack) (first : Nat) (values : List Value) :
    s.SameShape (s.write first values) := by
  induction values generalizing s first with
  | nil => exact .refl s
  | cons v rest ih => exact (s.set_sameShape first v).trans (ih _ _)

theorem get_write (s : RegisterStack) (values : List Value) {first j : Nat}
    (outside : j < first ∨ first + values.length ≤ j) : (s.write first values).get j = s.get j := by
  induction values generalizing s first with
  | nil => rfl
  | cons v rest ih =>
    simp only [List.length_cons] at outside
    simp only [write]
    rw [ih _ (by omega), get_set_of_ne _ _ (by omega)]

theorem get_written (s : RegisterStack) {values : List Value} (first : Nat) {i : Nat} (inside : i < values.length)
    (fits : first + values.length ≤ s.capacity) : (s.write first values).get (first + i) = values[i] := by
  induction values generalizing s first i with
  | nil => cases inside
  | cons v rest ih =>
    simp only [List.length_cons] at fits
    have capacity := (s.set_sameShape first v).capacity
    cases i with
    | zero =>
      simp only [write]
      rw [get_write _ _ (by omega), get_set, if_pos ⟨rfl, by omega⟩]
      rfl
    | succ i =>
      have later := ih (s.set first v) (first + 1) (Nat.lt_of_succ_lt_succ inside) (by omega)
      rw [Nat.add_right_comm, Nat.add_assoc] at later
      exact later

theorem move_sameShape (s : RegisterStack) (source target count : Nat) : s.SameShape (s.move source target count) := by
  induction count generalizing s source target with
  | zero => exact .refl s
  | succ count ih => exact ((s.set_sameShape _ _).trans (set_sameShape _ _ _)).trans (ih _ _ _)

theorem get_move (s : RegisterStack) {source target count j : Nat}
    (left : j < source ∨ source + count ≤ j) (entered : j < target ∨ target + count ≤ j) :
    (s.move source target count).get j = s.get j := by
  induction count generalizing s source target with
  | zero => rfl
  | succ count ih =>
    simp only [move]
    rw [ih _ (by omega) (by omega), get_set_of_ne _ _ (by omega), get_set_of_ne _ _ (by omega)]

/-- What is moved down arrives, in order, and leaves nil where nothing else arrives. -/
theorem get_move_down (s : RegisterStack) {source target : Nat} (down : target < source) (count j : Nat) :
    (s.move source target count).get j =
      if target ≤ j ∧ j < target + count then s.get (source + (j - target))
      else if source ≤ j ∧ j < source + count then .nil else s.get j := by
  induction count generalizing s source target with
  | zero =>
    rw [if_neg (by omega), if_neg (by omega)]
    rfl
  | succ count ih =>
    have first (i : Nat) (other : i ≠ target) :
        ((s.set source .nil).set target (s.get source)).get i = if i = source then .nil else s.get i := by
      rw [get_set_of_ne _ _ other, get_set_nil]
    have arrived : ((s.set source .nil).set target (s.get source)).get target = s.get source := by
      rw [get_set, (s.set_sameShape source .nil).capacity]
      by_cases inside : target < s.capacity
      · rw [if_pos ⟨rfl, inside⟩]
      · rw [if_neg (by omega), get_of_capacity_le, get_of_capacity_le (by omega)]
        rw [(s.set_sameShape source .nil).capacity]
        omega
    simp only [move]
    rw [ih _ (by omega)]
    by_cases later : target + 1 ≤ j ∧ j < target + 1 + count
    · rw [if_pos later, if_pos (by omega), first _ (by omega), if_neg (by omega)]
      congr 1
      omega
    · rw [if_neg later]
      by_cases here : j = target
      · subst here
        rw [if_neg (by omega), if_pos (by omega), arrived, Nat.sub_self]
        rfl
      · rw [if_neg (c := target ≤ j ∧ j < target + (count + 1)) (by omega), first _ here]
        by_cases left : source + 1 ≤ j ∧ j < source + 1 + count
        · rw [if_pos left, if_pos (by omega)]
        · rw [if_neg left]
          by_cases same : j = source
          · rw [if_pos same, if_pos (by omega)]
          · rw [if_neg same, if_neg (by omega)]

theorem set_confined (s : RegisterStack) (v : Value) {i : Nat} (low : floor ≤ i) : Confined floor s (s.set i v) :=
  (s.set_sameShape i v).confined fun _ _ => get_set_of_ne _ _ (by omega)

theorem set_clear (v : Value) {i : Nat} (clear : s.Clear) (inside : i < s.top) : (s.set i v).Clear := by
  refine (s.set_sameShape i v).clear clear ?_
  intro j above
  rw [get_set_of_ne _ _ (by omega)]
  exact clear.empty j above

theorem move_confined (s : RegisterStack) {source target : Nat} (count : Nat) (low : floor ≤ source)
    (low' : floor ≤ target) : Confined floor s (s.move source target count) :=
  (s.move_sameShape _ _ _).confined fun _ _ => get_move _ (by omega) (by omega)

/-- What is moved down from below the cursor stays below it. -/
theorem move_clear {source target count : Nat} (clear : s.Clear) (down : target ≤ source)
    (inside : count = 0 ∨ source + count ≤ s.top) : (s.move source target count).Clear := by
  refine (s.move_sameShape _ _ _).clear clear ?_
  intro j above
  rw [get_move _ (by omega) (by omega)]
  exact clear.empty j above

theorem clear_confined (s : RegisterStack) {first : Nat} (count : Nat) (low : floor ≤ first) :
    Confined floor s (s.clear first count) := by
  refine (s.clear_sameShape _ _).confined ?_
  intro j inside
  rw [get_clear, if_neg (by omega)]

theorem clear_clear (first count : Nat) (clear : s.Clear) : (s.clear first count).Clear := by
  refine (s.clear_sameShape _ _).clear clear ?_
  intro j above
  rw [get_clear]
  split
  · rfl
  · exact clear.empty j above

theorem emptied_clear (s : RegisterStack) (clear : s.Clear) : s.emptied.Clear := by
  refine ⟨Nat.zero_le _, ?_⟩
  intro i _
  change (s.clear 0 s.top).get i = .nil
  rw [get_clear]
  by_cases inside : i < s.top
  · rw [if_pos (by omega)]
  · rw [if_neg (by omega)]
    exact clear.empty i (by omega)

/-- An operation that changes nothing below the floor and leaves nothing from the cursor on. -/
def Disciplined {α : Type} (floor : Nat) (op : StackM α) : Prop := ∀ s : RegisterStack, s.Orderly floor (op s).2

theorem bind_apply {α β : Type} (op : StackM α) (next : α → StackM β) (s : RegisterStack) :
    (op >>= next) s = match op s with | (.ok a, s) => next a s | (.error e, s) => (.error e, s) := by
  change (ExceptT.bind op next) s = _
  simp only [ExceptT.bind, ExceptT.mk, Bind.bind, StateT.bind]
  rcases op s with ⟨_ | _, _⟩ <;> rfl

namespace Disciplined

theorem pure {α : Type} (a : α) : Disciplined floor (Pure.pure a : StackM α) := fun s => .refl floor s

theorem bind {α β : Type} {op : StackM α} {next : α → StackM β} (first : Disciplined floor op)
    (rest : ∀ a, Disciplined floor (next a)) : Disciplined floor (op >>= next) := by
  intro s
  have kept := first s
  rw [bind_apply]
  rcases ran : op s with ⟨_ | a, after⟩ <;> rw [ran] at kept
  · exact kept
  · exact kept.trans (rest a after)

theorem read {α : Type} {next : RegisterStack → StackM α} (rest : ∀ s : RegisterStack, s.Orderly floor (next s s).2) :
    Disciplined floor (getThe RegisterStack >>= next) :=
  rest

end Disciplined

/-- The cursor moves to a height, and the slots it passes on its way down are cleared. -/
def raised (s : RegisterStack) (height : Nat) : RegisterStack := { s.clear height (s.top - height) with top := height }

theorem get_raised (s : RegisterStack) (height j : Nat) :
    (s.raised height).get j = if height ≤ j ∧ j < s.top then .nil else s.get j := by
  change (s.clear height (s.top - height)).get j = _
  rw [get_clear]
  by_cases passed : height ≤ j ∧ j < s.top
  · rw [if_pos passed, if_pos (by omega)]
  · rw [if_neg passed, if_neg (by omega)]

theorem raised_capacity (s : RegisterStack) (height : Nat) : (s.raised height).capacity = s.capacity :=
  clear_capacity _ _ _

theorem raised_orderly {height : Nat} (low : floor ≤ height) (fits : height ≤ s.capacity) :
    s.Orderly floor (s.raised height) := by
  have capacity := s.raised_capacity height
  refine ⟨⟨capacity, ?_, ?_, fun _ => low⟩, ?_⟩
  · intro _
    rw [capacity]
    exact fits
  · intro _ i inside
    rw [get_raised, if_neg (by omega)]
  · intro clear
    refine ⟨by rw [capacity]; exact fits, ?_⟩
    intro i above
    rw [get_raised]
    by_cases passed : i < s.top
    · rw [if_pos ⟨above, passed⟩]
    · rw [if_neg (by omega)]
      exact clear.empty i (by omega)

theorem setTop_disciplined {height : Nat} (low : floor ≤ height) : Disciplined floor (setTop height) := by
  intro s
  rw [setTop_apply]
  by_cases beyond : s.capacity < height
  · rw [if_pos beyond]
    exact .refl floor s
  · rw [if_neg beyond]
    exact raised_orderly low (Nat.not_lt.mp beyond)

theorem push_apply (values : List Value) (s : RegisterStack) :
    push values s =
      if s.capacity - s.top < values.length then (.error (.insufficientSpace values.length (s.capacity - s.top)), s)
      else (.ok (), { s.write s.top values with top := s.top + values.length }) := by
  change (do if s.capacity - s.top < values.length then throw _ else pure _; modify _ : StackM Unit) s = _
  by_cases full : s.capacity - s.top < values.length
  · simp only [full, if_true]
    rfl
  · simp only [full, if_false]
    rfl

theorem push_disciplined (values : List Value) : Disciplined floor (push values) := by
  intro s
  rw [push_apply]
  by_cases full : s.capacity - s.top < values.length
  · rw [if_pos full]
    exact .refl floor s
  · rw [if_neg full]
    have capacity := (s.write_sameShape s.top values).capacity
    refine ⟨⟨capacity, ?_, ?_, ?_⟩, ?_⟩
    · intro fits
      change s.top + values.length ≤ (s.write s.top values).capacity
      omega
    · intro above i inside
      exact get_write _ _ (by omega)
    · intro above
      exact Nat.le_add_right_of_le above
    · intro clear
      have fits := clear.fits
      refine ⟨?_, ?_⟩
      · change s.top + values.length ≤ (s.write s.top values).capacity
        omega
      · intro i above
        change s.top + values.length ≤ i at above
        refine (get_write _ _ (.inr above)).trans ?_
        exact clear.empty i (by omega)

end RegisterStack

namespace Window

open RegisterStack

variable {floor : Nat} {w : Window}

theorem setTop_of_fits {s : RegisterStack} {n : Nat} (fits : w.offset + n ≤ s.capacity) :
    w.setTop n s = (.ok (), s.raised (w.offset + n)) := by
  rw [setTop, setTop_apply, if_neg (Nat.not_lt.mpr fits)]
  rfl

theorem setTop_disciplined (n : Nat) (low : floor ≤ w.offset) : Disciplined floor (w.setTop n) :=
  RegisterStack.setTop_disciplined (by omega)

theorem pushAll_disciplined (values : List Value) (low : floor ≤ w.offset) : Disciplined floor (w.pushAll values) := by
  apply Disciplined.read
  intro s
  by_cases under : s.top < w.offset
  · simp only [under, if_true]
    exact (RegisterStack.setTop_disciplined low).bind (fun _ => push_disciplined values) s
  · simp only [under, if_false]
    exact push_disciplined values s

theorem ret_disciplined (values : List Value) (low : floor ≤ w.offset) : Disciplined floor (w.ret values) :=
  (setTop_disciplined 0 low).bind fun _ => push_disciplined values

/-- The value goes to the cursor, or to the start of a window that lies above it. -/
theorem push_disciplined (v : Value) (low : floor ≤ w.offset) : Disciplined floor (w.push v) := by
  apply Disciplined.read
  intro s
  by_cases full : w.size s ≤ w.top s
  · simp only [full, if_true]
    exact .refl floor s
  · simp only [full, if_false]
    change s.Orderly floor (RegisterStack.setTop (w.offset + w.top s + 1) (s.set (w.offset + w.top s) v)).2
    have place : s.top ≤ w.offset + w.top s := by
      simp only [top]
      omega
    have inside : w.offset + w.top s + 1 ≤ (s.set (w.offset + w.top s) v).capacity := by
      rw [(s.set_sameShape _ v).capacity]
      simp only [size] at full
      omega
    rw [setTop_apply, if_neg (Nat.not_lt.mpr inside)]
    refine ⟨(set_confined s v (by omega)).trans (raised_orderly (by omega) inside).toConfined, ?_⟩
    intro clear
    refine ⟨?_, ?_⟩
    · change w.offset + w.top s + 1 ≤ ((s.set (w.offset + w.top s) v).raised _).capacity
      rw [raised_capacity]
      exact inside
    · intro i above
      change w.offset + w.top s + 1 ≤ i at above
      change ((s.set (w.offset + w.top s) v).raised _).get i = .nil
      rw [get_raised, get_set_of_ne _ _ (by omega)]
      split
      · rfl
      · exact clear.empty i (by omega)

theorem prepend_disciplined (v : Value) (low : floor ≤ w.offset) : Disciplined floor (w.prepend v) := by
  apply Disciplined.read
  intro s
  exact (setTop_disciplined 0 low).bind
    (fun _ => (push_disciplined v low).bind fun _ => pushAll_disciplined _ low) s

theorem returnFrom_disciplined (extra : Nat) (low : floor ≤ w.offset) :
    Disciplined floor (w.returnFrom (w.shift extra)) := by
  apply Disciplined.read
  intro s
  by_cases same : (w.shift extra).offset = w.offset
  · simp only [same, ne_eq, not_true_eq_false, if_false]
    exact setTop_disciplined _ low s
  · simp only [same, ne_eq, not_false_eq_true, if_true]
    have moved : s.Orderly floor (s.move (w.shift extra).offset w.offset ((w.shift extra).top s)) := by
      refine ⟨s.move_confined _ (by simp only [shift]; omega) low, ?_⟩
      intro clear
      refine move_clear clear (Nat.le_add_right _ _) ?_
      simp only [top]
      omega
    exact moved.trans (setTop_disciplined _ low _)

end Window

namespace Core

open RegisterStack

/-- An operation that keeps to the discipline of the register stack. -/
def Disciplined {α : Type} (floor : Nat) (op : CoreM α) : Prop :=
  ∀ c : Core, c.context.stack.Orderly floor (op c).2.context.stack

namespace Disciplined

variable {floor : Nat}

theorem of_same {α : Type} {op : CoreM α} (same : ∀ c, (op c).2.context.stack = c.context.stack) :
    Disciplined floor op := by
  intro c
  rw [same]
  exact .refl _ _

theorem onStack {α : Type} {op : StackM α} (disciplined : RegisterStack.Disciplined floor op) :
    Disciplined floor (onStack op) :=
  fun c => disciplined c.context.stack

theorem bind {α β : Type} {op : CoreM α} {next : α → CoreM β} (first : Disciplined floor op)
    (rest : ∀ a, Disciplined floor (next a)) : Disciplined floor (op >>= next) := by
  intro c
  have kept := first c
  rw [bind_apply]
  rcases ran : op c with ⟨_ | a, after⟩ <;> rw [ran] at kept
  · exact kept
  · exact kept.trans (rest a after)

theorem pure {α : Type} (a : α) : Disciplined floor (Pure.pure a : CoreM α) := of_same fun _ => rfl

theorem throw {α : Type} (e : Failure) : Disciplined floor (throw e : CoreM α) := of_same fun _ => rfl

theorem onWorld {α : Type} (op : WorldM α) : Disciplined floor (onWorld op) := of_same fun _ => rfl

theorem getWorld : Disciplined floor getWorld := of_same fun _ => rfl

theorem getStack : Disciplined floor getStack := of_same fun _ => rfl

theorem tick : Disciplined floor tick := by
  apply of_same
  intro c
  rw [tick_apply]
  cases c.context.budget.isExhausted <;> rfl

end Disciplined

end Core

open CoopScript.Core

/-- An action touches the window of its function and what lies above. -/
theorem Action.perform_disciplined {floor : Nat} {w : Window} (low : floor ≤ w.offset) (f : FunctionId) (a : Action) :
    Disciplined floor (a.perform f w) := by
  cases a with
  | done | suspend reason state | index object key state | textOf value state => exact .pure _
  | ret results => exact (Disciplined.onStack (w.ret_disciplined results low)).bind fun _ => .pure _
  | call callee args shift state =>
    have further : floor ≤ (w.shift shift).offset := Nat.le_add_right_of_le low
    refine (Disciplined.onStack (w.setTop_disciplined 0 low)).bind fun _ => ?_
    exact (Disciplined.onStack (Window.pushAll_disciplined args further)).bind fun _ => .pure _
  | forward function receiver state =>
    cases receiver with
    | none => exact .pure _
    | some v => exact (Disciplined.onStack (w.prepend_disciplined v low)).bind fun _ => .pure _
  | spend cost state =>
    refine Disciplined.bind (.of_same fun _ => rfl) fun _ => Disciplined.tick.bind fun spent => ?_
    cases spent <;> exact .pure _
  | takeOver shift => exact (Disciplined.onStack (w.returnFrom_disciplined shift low)).bind fun _ => .pure _

theorem Request.serve_disciplined {floor : Nat} {w : Window} (low : floor ≤ w.offset) (r : Request) :
    Disciplined floor (r.serve w) := by
  have answered (values : List Value) (a : Activity) :
      Disciplined floor (onStack (w.ret values) >>= fun _ => pure a) :=
    (Disciplined.onStack (w.ret_disciplined values low)).bind fun _ => .pure _
  apply Disciplined.getWorld.bind
  intro world
  split
  · exact .pure _
  · exact .pure _
  · split
    · exact (Disciplined.onStack (w.prepend_disciplined _ low)).bind fun _ => .pure _
    · exact .throw _
  · split
    · exact answered _ _
    · exact answered _ _
    · exact .throw _
  · split
    · exact answered _ _
    · exact answered _ _

theorem Proto.enter_disciplined {floor : Nat} {w : Window} (low : floor ≤ w.offset) (p : Proto) :
    Disciplined floor (p.enter w) := by
  have placed (n : Nat) : Disciplined floor (onStack (w.setTop n)) := .onStack (w.setTop_disciplined n low)
  apply Disciplined.getStack.bind
  intro s
  split
  · exact (placed p.params).bind fun _ => placed p.regs
  · exact placed p.regs

theorem Callable.invoke_disciplined {floor : Nat} {w : Window} (low : floor ≤ w.offset) (called : Callable)
    (f : FunctionId) : Disciplined floor (called.invoke f w) := by
  apply Disciplined.getStack.bind
  intro s
  cases called with
  | script p => exact (p.enter_disciplined low).bind fun _ => .pure _
  | builtin _ | lines _ _ | host _ => exact (Disciplined.onWorld _).bind fun a => a.perform_disciplined low f
  | «matches» cursor => exact (Disciplined.onWorld _).bind fun _ => Action.perform_disciplined low f _

theorem Callable.resume_disciplined {floor : Nat} {w : Window} (low : floor ≤ w.offset) {called : Callable}
    (other : ∀ p, called ≠ .script p) (f : FunctionId) (saved : Saved) : Disciplined floor (called.resume f w saved) := by
  apply Disciplined.getStack.bind
  intro s
  cases called with
  | script p => exact absurd rfl (other p)
  | builtin _ | host _ => exact (Disciplined.onWorld _).bind fun a => a.perform_disciplined low f
  | «matches» cursor => exact .throw _
  | lines file formats =>
    cases saved with
    | reading _ => exact (Disciplined.onWorld _).bind fun a => a.perform_disciplined low f
    | _ => exact .throw _

end CoopScript
