import CoopScript.Proofs.StepEffects

/-! The cursor of a running script. From the moment it is entered, and again whenever it goes on
after a call or a suspension, a script finds the cursor at the end of its frame, and instructions
leave it there: putting it there once more changes nothing. -/

namespace CoopScript

namespace RegisterStack

/-- The same cursor over as many slots. -/
structure SameShape (s t : RegisterStack) : Prop where
  top : t.top = s.top
  capacity : t.capacity = s.capacity

theorem set_sameShape (s : RegisterStack) (i : Nat) (v : Value) : s.SameShape (s.set i v) :=
  ⟨rfl, by simp only [capacity, set, Array.size_setIfInBounds]⟩

theorem setTop_apply (height : Nat) (s : RegisterStack) :
    setTop height s =
      if s.capacity < height then (.error (.outOfRange height s.capacity), s)
      else (.ok (), { s.clear height (s.top - height) with top := height }) := by
  change (do if s.capacity < height then throw _ else pure _; modify _ : StackM Unit) s = _
  by_cases beyond : s.capacity < height
  · simp only [beyond, if_true]
    rfl
  · simp only [beyond, if_false]
    rfl

theorem clear_capacity (s : RegisterStack) (first count : Nat) : (s.clear first count).capacity = s.capacity := by
  induction count generalizing s first with
  | zero => rfl
  | succ count ih => exact (ih _ _).trans (s.set_sameShape first .nil).capacity

theorem setTop_self {s : RegisterStack} (fits : s.top ≤ s.capacity) : setTop s.top s = (.ok (), s) := by
  rw [setTop_apply, if_neg (Nat.not_lt.mpr fits), Nat.sub_self]
  rfl

end RegisterStack

namespace Proto

open CoopScript.Core RegisterStack

/-- The cursor is at the end of the script's frame. -/
structure Framed (p : Proto) (w : Window) (s : RegisterStack) : Prop where
  top : s.top = w.offset + p.regs
  fits : w.offset + p.regs ≤ s.capacity

namespace Framed

variable {p : Proto} {w : Window} {s t : RegisterStack}

theorem of_sameShape (framed : p.Framed w s) (same : s.SameShape t) : p.Framed w t :=
  ⟨same.top.trans framed.top, same.capacity ▸ framed.fits⟩

theorem setTop (framed : p.Framed w s) : w.setTop p.regs s = (.ok (), s) := by
  rw [Window.setTop, ← framed.top]
  exact setTop_self (framed.top ▸ framed.fits)

theorem of_setTop (placed : (w.setTop p.regs s).1 = .ok ()) : p.Framed w (w.setTop p.regs s).2 := by
  rw [Window.setTop, setTop_apply] at placed ⊢
  split at placed
  · cases placed
  · next inside =>
    rw [if_neg inside]
    refine ⟨rfl, ?_⟩
    change _ ≤ (s.clear _ _).capacity
    rw [clear_capacity]
    exact Nat.not_lt.mp inside

end Framed

variable {p : Proto} {w : Window}

private theorem framed_of_onStack {c : Core} (placed : (onStack (w.setTop p.regs) c).1 = .ok ()) :
    p.Framed w (onStack (w.setTop p.regs) c).2.context.stack := by
  simp only [onStack_apply] at placed
  refine Framed.of_setTop ?_
  cases moved : (w.setTop p.regs c.context.stack).1 with
  | error e =>
    rw [moved] at placed
    cases placed
  | ok _ => rfl

theorem enter_framed {c : Core} (entered : (p.enter w c).1 = .ok ()) : p.Framed w (p.enter w c).2.context.stack := by
  simp only [enter, bind_apply, getStack_apply] at entered ⊢
  split at entered
  · next surplus =>
    rw [if_pos surplus]
    rw [bind_apply] at entered ⊢
    split at entered
    · exact framed_of_onStack entered
    · cases entered
  · next exact =>
    rw [if_neg exact]
    exact framed_of_onStack entered

theorem resume_framed {c : Core} {pending : Option Pending} (resumed : (p.resume w pending c).1 = .ok ()) :
    p.Framed w (p.resume w pending c).2.context.stack := by
  cases pending with
  | none => exact framed_of_onStack resumed
  | some pending =>
    cases pending <;>
      · simp only [resume, finish, bind_apply, modifyStack_apply] at resumed ⊢
        exact framed_of_onStack resumed

/-- Where a script keeps running, its frame is as it was. -/
theorem effect_framed {s : RegisterStack} {found : Option Instr} {effect : Effect} (framed : p.Framed w s)
    (done : (p.effect w s found).1 = .ok effect) (stays : effect = .advance ∨ ∃ target, effect = .jump target) :
    p.Framed w (p.effect w s found).2 := by
  have stored (dst : Nat) (v : Value) : p.Framed w (w.set s dst v) := framed.of_sameShape (s.set_sameShape _ v)
  have storing (dst : Nat) (value : Except ScriptError Value) : p.Framed w (Effect.storing w s dst value).2 := by
    cases value with
    | error _ => exact framed
    | ok v => exact stored dst v
  cases found with
  | none =>
    cases Effect.eq_of_after done
    rcases stays with stays | ⟨_, stays⟩ <;> cases stays
  | some instr =>
    cases instr with
    | loadConst _ _ | loadNil _ | move _ _ => exact stored _ _
    | arith _ _ _ _ | compare _ _ _ _ | concat _ _ _ => exact storing _ _
    | jump _ | jumpIfNot _ _ | getField _ _ _ | charge _ | tick => exact framed
    | call _ _ _ | ret _ _ =>
      cases Effect.eq_of_after done
      rcases stays with stays | ⟨_, stays⟩ <;> cases stays

end Proto

end CoopScript
