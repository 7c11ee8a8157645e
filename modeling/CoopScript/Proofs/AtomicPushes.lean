import CoopScript.Proofs.StackDiscipline

/-! Pushes on the register stack. A push is all or nothing: it fails and changes nothing, or its values
are at one place, in order, with the cursor behind them and every other slot as before. The one
exception are several values that are pushed into a window above the cursor: the cursor is raised to
the window before there is known to be room, and stays there when there is none. -/

namespace CoopScript

namespace RegisterStack

/-- The values are in the slots from `place` on, the cursor is behind them, and nothing else has
changed. -/
structure Appended (place : Nat) (values : List Value) (s t : RegisterStack) : Prop where
  capacity : t.capacity = s.capacity
  top : t.top = place + values.length
  written : ∀ i, (inside : i < values.length) → t.get (place + i) = values[i]
  others : ∀ j, j < place ∨ place + values.length ≤ j → t.get j = s.get j

/-- The operation appends the values at `place`, all or none. It fails if there is no room for them. -/
structure Atomic (place : Nat) (values : List Value) (op : StackM Unit) (s : RegisterStack) : Prop where
  failed : ∀ e, (op s).1 = .error e → (op s).2 = s
  appended : (op s).1 = .ok () → s.Appended place values (op s).2
  full : s.top ≤ s.capacity → ((op s).1 = .ok () ↔ place + values.length ≤ s.capacity)

variable {s : RegisterStack} {place : Nat} {values : List Value} {op : StackM Unit}

theorem Atomic.of_error {e : StackError} (ran : op s = (.error e, s)) (full : s.capacity < place + values.length) :
    Atomic place values op s := by
  refine ⟨?_, ?_, ?_⟩ <;> rw [ran]
  · intro _ _
    rfl
  · intro done
    cases done
  · simp only [reduceCtorEq, false_iff]
    omega

theorem Atomic.of_ok {t : RegisterStack} (ran : op s = (.ok (), t)) (appended : s.Appended place values t)
    (fits : s.top ≤ s.capacity → place + values.length ≤ s.capacity) : Atomic place values op s := by
  refine ⟨?_, ?_, ?_⟩ <;> rw [ran]
  · intro _ failed
    cases failed
  · intro _
    exact appended
  · intro inside
    exact iff_of_true rfl (fits inside)

theorem push_atomic (values : List Value) (s : RegisterStack) : Atomic s.top values (push values) s := by
  have ran := push_apply values s
  by_cases full : s.capacity - s.top < values.length
  · rw [if_pos full] at ran
    exact .of_error ran (by omega)
  · rw [if_neg full] at ran
    refine .of_ok ran ⟨(s.write_sameShape s.top values).capacity, rfl, ?_, ?_⟩ (by omega)
    · intro i inside
      exact s.get_written s.top inside (by omega)
    · intro j outside
      exact s.get_write values outside

end RegisterStack

namespace Window

open RegisterStack

variable {w : Window} {s : RegisterStack} {values : List Value}

theorem push_atomic (w : Window) (v : Value) (s : RegisterStack) : Atomic (max s.top w.offset) [v] (w.push v) s := by
  have place : w.offset + w.top s = max s.top w.offset := by
    simp only [top]
    omega
  by_cases full : w.size s ≤ w.top s
  · have ran : w.push v s = (.error (.insufficientSpace 1 0), s) := by
      change (if w.size s ≤ w.top s then _ else _ : StackM Unit) s = _
      rw [if_pos full]
      rfl
    refine .of_error ran ?_
    simp only [size, List.length_singleton] at full ⊢
    omega
  · have inside : max s.top w.offset < s.capacity := by
      simp only [size] at full
      omega
    have shape := s.set_sameShape (max s.top w.offset) v
    have ran : w.push v s = (.ok (), (s.set (max s.top w.offset) v).raised (max s.top w.offset + 1)) := by
      change (if w.size s ≤ w.top s then _ else _ : StackM Unit) s = _
      rw [if_neg full]
      change RegisterStack.setTop (w.offset + w.top s + 1) (s.set (w.offset + w.top s) v) = _
      rw [place, setTop_apply, shape.capacity, if_neg (by omega)]
      rfl
    refine .of_ok ran ⟨?_, rfl, ?_, ?_⟩ fun _ => inside
    · rw [raised_capacity, shape.capacity]
    · intro i single
      obtain rfl : i = 0 := by simpa using single
      rw [get_raised, shape.top, if_neg (by omega), get_set, if_pos ⟨rfl, inside⟩]
      rfl
    · intro j outside
      simp only [List.length_singleton] at outside
      rw [get_raised, shape.top, if_neg (by omega), get_set_of_ne _ _ (by omega)]

/-- The window begins above the cursor, with too little room for the values. -/
def Cramped (w : Window) (s : RegisterStack) (values : List Value) : Prop :=
  s.top < w.offset ∧ w.offset ≤ s.capacity ∧ s.capacity < w.offset + values.length

theorem raised_of_under (under : s.top < w.offset) : s.raised w.offset = { s with top := w.offset } := by
  have none : s.top - w.offset = 0 := by omega
  rw [raised, none]
  rfl

theorem pushAll_of_under (under : s.top < w.offset) : w.pushAll values s =
    if s.capacity < w.offset then (.error (.outOfRange w.offset s.capacity), s)
    else RegisterStack.push values { s with top := w.offset } := by
  change (if s.top < w.offset then _ else _ : StackM Unit) s = _
  rw [if_pos under, RegisterStack.bind_apply, setTop_apply, ← raised_of_under under]
  by_cases beyond : s.capacity < w.offset
  · rw [if_pos beyond, if_pos beyond]
  · rw [if_neg beyond, if_neg beyond]
    rfl

/-- The cursor is raised in vain. -/
theorem pushAll_of_cramped (cramped : w.Cramped s values) : w.pushAll values s =
    (.error (.insufficientSpace values.length (s.capacity - w.offset)), { s with top := w.offset }) := by
  obtain ⟨under, inside, full⟩ := cramped
  rw [pushAll_of_under under, if_neg (Nat.not_lt.mpr inside), push_apply]
  change (if s.capacity - w.offset < values.length then _ else _) = _
  rw [if_pos (by omega)]
  rfl

theorem pushAll_atomic (roomy : ¬ w.Cramped s values) : Atomic (max s.top w.offset) values (w.pushAll values) s := by
  by_cases under : s.top < w.offset
  · rw [Nat.max_eq_right under.le]
    have ran : w.pushAll values s = _ := pushAll_of_under under
    by_cases beyond : s.capacity < w.offset
    · rw [if_pos beyond] at ran
      exact .of_error ran (by omega)
    · rw [if_neg beyond] at ran
      -- with the cursor at the window it is a push like any other
      have pushed := RegisterStack.push_atomic values { s with top := w.offset }
      have fits : w.offset + values.length ≤ s.capacity := by
        simp only [Cramped] at roomy
        omega
      have done := (pushed.full (Nat.not_lt.mp beyond)).mpr fits
      obtain ⟨capacity, top, written, others⟩ := pushed.appended done
      exact .of_ok (ran.trans (Prod.ext done rfl)) ⟨capacity, top, written, others⟩ fun _ => fits
  · have same : w.pushAll values s = RegisterStack.push values s := by
      change (if s.top < w.offset then _ else _ : StackM Unit) s = _
      rw [if_neg under]
    rw [Nat.max_eq_left (Nat.not_lt.mp under)]
    obtain ⟨failed, appended, full⟩ := RegisterStack.push_atomic values s
    rw [← same] at failed appended full
    exact ⟨failed, appended, full⟩

/-- Pushes on the stack, and of one value into a window, are all or nothing. Pushes of several values
into a window are so exactly if the window does not begin above the cursor with too little room for
them; otherwise the cursor alone is moved, to the start of the window. -/
theorem pushes_atomic_iff (s : RegisterStack) (w : Window) (v : Value) (values : List Value) :
    Atomic s.top values (RegisterStack.push values) s ∧
    Atomic (max s.top w.offset) [v] (w.push v) s ∧
    (Atomic (max s.top w.offset) values (w.pushAll values) s ↔ ¬ w.Cramped s values) ∧
    (w.Cramped s values → w.pushAll values s =
      (.error (.insufficientSpace values.length (s.capacity - w.offset)), { s with top := w.offset })) := by
  refine ⟨RegisterStack.push_atomic values s, w.push_atomic v s, ⟨?_, pushAll_atomic⟩, pushAll_of_cramped⟩
  intro atomic cramped
  have ran := pushAll_of_cramped cramped
  have kept := atomic.failed _ (congrArg Prod.fst ran)
  rw [ran] at kept
  have moved := congrArg RegisterStack.top kept
  exact absurd moved cramped.1.ne'

/-- A window above the cursor with just enough room. -/
theorem pushes_atomic_iff_above :
    Atomic 1 [.int 1, .int 2] ((⟨1⟩ : Window).pushAll [.int 1, .int 2]) ⟨#[.nil, .nil, .nil], 0⟩ := by
  obtain ⟨-, -, several, -⟩ := pushes_atomic_iff ⟨#[.nil, .nil, .nil], 0⟩ ⟨1⟩ .nil [.int 1, .int 2]
  exact several.mpr (by simp [Cramped, capacity])

/-- With one slot less the push fails, and the cursor is no longer at the bottom. -/
theorem pushAll_not_atomic :
    (⟨1⟩ : Window).pushAll [.int 1, .int 2] ⟨#[.nil, .nil], 0⟩ =
      (.error (.insufficientSpace 2 1), ⟨#[.nil, .nil], 1⟩) ∧
    ¬ Atomic 1 [.int 1, .int 2] ((⟨1⟩ : Window).pushAll [.int 1, .int 2]) ⟨#[.nil, .nil], 0⟩ := by
  refine ⟨rfl, fun atomic => ?_⟩
  have kept := congrArg RegisterStack.top (atomic.failed (.insufficientSpace 2 1) rfl)
  exact absurd kept (by decide)

end Window

end CoopScript
