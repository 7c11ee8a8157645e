import CoopScript.Proofs.ReadArrival

/-! Results on their way down. What a callee leaves in its window becomes what its caller returns: the values are moved
to the caller's window one by one, over slots that may still hold others of them, and the cursor follows to their end.
A slot that a value is put in has already been emptied, or holds none of them, so nothing is lost. -/

namespace CoopScript

namespace RegisterStack

/-- The stack with `count` slots moved from `source` down to `target`, if these are different places. -/
def brought (s : RegisterStack) (source target count : Nat) : RegisterStack :=
  if source ≠ target then s.move source target count else s

theorem brought_sameShape (s : RegisterStack) (source target count : Nat) :
    s.SameShape (s.brought source target count) := by
  rw [brought]
  split
  · exact s.move_sameShape source target count
  · exact .refl s

/-- What is brought down arrives in order, also at the place where it was, and leaves nil where nothing else arrives. -/
theorem get_brought (s : RegisterStack) {source target : Nat} (down : target ≤ source) (count j : Nat) :
    (s.brought source target count).get j =
      if target ≤ j ∧ j < target + count then s.get (source + (j - target))
      else if source ≤ j ∧ j < source + count then .nil else s.get j := by
  by_cases apart : source ≠ target
  · rw [brought, if_pos apart, s.get_move_down (by omega)]
  · obtain rfl : source = target := not_ne_iff.mp apart
    rw [brought, if_neg apart]
    by_cases inside : source ≤ j ∧ j < source + count
    · rw [if_pos inside, Nat.add_sub_cancel' inside.1]
    · rw [if_neg inside, if_neg inside]

end RegisterStack

namespace Window

open RegisterStack

variable {w callee : Window} {s : RegisterStack}

theorem length_values (fits : s.top ≤ s.capacity) : (w.values s).length = w.top s := by
  simp only [values, slice, top, capacity, Array.length_toList, Array.size_extract] at fits ⊢
  omega

theorem returnFrom_apply (w callee : Window) (s : RegisterStack) :
    w.returnFrom callee s = w.setTop (callee.top s) (s.brought callee.offset w.offset (callee.top s)) := by
  by_cases apart : callee.offset ≠ w.offset
  · rw [brought, if_pos apart, returnFrom]
    simp only [if_pos apart]
    rfl
  · rw [brought, if_neg apart, returnFrom]
    simp only [if_neg apart]
    rfl

/-- The values of the callee become those of the window, in order, however much the two overlap and wherever the cursor
is. The cursor is then behind them, there is nothing from there on, and below the window nothing has changed. -/
theorem returnFrom_moves_down (clear : s.Clear) (above : w.offset ≤ callee.offset) (inside : callee.offset ≤ s.capacity) :
    ∃ t, w.returnFrom callee s = (.ok (), t) ∧ t.capacity = s.capacity ∧
      w.values t = callee.values s ∧
      t.top = w.offset + (callee.values s).length ∧
      (∀ i, i < w.offset → t.get i = s.get i) ∧
      ∀ i, w.offset + (callee.values s).length ≤ i → t.get i = .nil := by
  have fits := clear.fits
  have shape := s.brought_sameShape callee.offset w.offset (callee.top s)
  have arrived := s.get_brought above (callee.top s)
  have count : (callee.values s).length = callee.top s := length_values fits
  have room : w.offset + callee.top s ≤ (s.brought callee.offset w.offset (callee.top s)).capacity := by
    rw [shape.capacity, top]
    omega
  have reached := get_raised (s.brought callee.offset w.offset (callee.top s)) (w.offset + callee.top s)
  have capacity := (raised_capacity (s.brought callee.offset w.offset (callee.top s)) (w.offset + callee.top s)).trans
    shape.capacity
  refine ⟨_, (returnFrom_apply w callee s).trans (setTop_of_fits room), capacity, ?_, ?_, ?_, ?_⟩
  · refine (Shows.of_get ?_ ?_ ?_).values
    · rw [count]
      rfl
    · rw [raised_capacity]
      exact room
    · intro i within
      rw [count] at within
      have found := values_getElem? (w := callee) fits i
      rw [if_pos within, List.getElem?_eq_getElem] at found
      rw [reached, if_neg (by omega), arrived, if_pos (by omega), Nat.add_sub_cancel_left]
      exact (Option.some.inj found).symm
  · rw [count]
    rfl
  · intro i below
    rw [reached, if_neg (by omega), arrived, if_neg (by omega), if_neg (by omega)]
  · intro i beyond
    rw [count] at beyond
    rw [reached, shape.top]
    split
    · rfl
    · rw [arrived, if_neg (by omega)]
      split
      · rfl
      · exact clear.empty i (by omega)

/-- Three values move by one slot, so that two of them go where others have been. -/
theorem returnFrom_moves_down_overlapping : ∃ s t, s = ⟨#[.bool true, .int 7, .int 1, .int 2, .int 3, .nil], 5⟩ ∧
    (⟨1⟩ : Window).returnFrom ⟨2⟩ s = (.ok (), t) ∧ (⟨1⟩ : Window).values t = [.int 1, .int 2, .int 3] ∧ t.top = 4 ∧
    t.get 0 = .bool true ∧ t.get 4 = .nil := by
  have clear : Clear ⟨#[.bool true, .int 7, .int 1, .int 2, .int 3, .nil], 5⟩ := by
    refine ⟨by decide, fun i beyond => ?_⟩
    have beyond : 5 ≤ i := beyond
    by_cases last : i = 5
    · rw [last]
      rfl
    · exact get_of_capacity_le (show 6 ≤ i by omega)
  have above : (⟨1⟩ : Window).offset ≤ (⟨2⟩ : Window).offset := by decide
  obtain ⟨t, moved, -, values, top, below, beyond⟩ := returnFrom_moves_down clear above (by decide)
  exact ⟨_, t, rfl, moved, values, top, below 0 Nat.one_pos, beyond 4 (by decide)⟩

end Window

end CoopScript
