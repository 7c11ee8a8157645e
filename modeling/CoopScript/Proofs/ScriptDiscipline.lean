import CoopScript.Proofs.AccountingLayout
import CoopScript.Proofs.MachineRuns
import CoopScript.Proofs.StackDiscipline

/-! Scripts on the register stack. Instructions write registers without a look at the cursor, and
collect results while it lies below the end of the frame. What they write is confined to the
window of the script whatever its code is; that it stays below the cursor rests on the
verification of the code. -/

namespace CoopScript

open RegisterStack

namespace Pending

/-- The registers that take the results belong to the frame. -/
def Fits (p : Proto) : Pending → Prop
  | .call base nresults => base + nresults ≤ p.regs
  | .index dst => dst < p.regs

end Pending

namespace Effect

theorem after_stack (effect : Effect) (result : Except StackError Unit × RegisterStack) :
    (effect.after result).2 = result.2 := by
  rcases result with ⟨_ | _, _⟩ <;> rfl

end Effect

namespace Proto

open CoopScript.Core

variable {p : Proto} {w : Window} {s : RegisterStack} {floor pc : Nat} {instr : Instr}

theorem params_of_verified (verified : p.verified = .ok p) : p.params ≤ p.regs := (verified_iff.mp verified).2.1

/-- Verified code meets the demands of the instruction that it is about to run. -/
theorem meets_of_verified (verified : p.verified = .ok p) (found : p.code[pc]? = some instr) {operand : Operand}
    (demanded : operand ∈ instr.operands) : p.Meets operand :=
  (verified_iff.mp verified).2.2 instr (List.mem_of_getElem? found) operand demanded

theorem registers_of_verified (verified : p.verified = .ok p) (found : p.code[pc]? = some instr) {stop : Nat}
    (demanded : .registers stop ∈ instr.operands) : stop ≤ p.regs :=
  meets_of_verified verified found demanded

theorem pending_fits (verified : p.verified = .ok p) {pending : Pending}
    (made : p.code[pc]?.bind Instr.pending? = some pending) : pending.Fits p := by
  obtain ⟨instr, found, waits⟩ := Option.bind_eq_some_iff.mp made
  cases instr with
  | call base nargs nresults =>
    cases waits
    exact registers_of_verified verified found (by simp [Instr.operands])
  | getField dst table key =>
    cases waits
    exact registers_of_verified verified found (by simp [Instr.operands])
  | _ => cases waits

theorem collectResults_confined (low : floor ≤ w.offset) (s : RegisterStack) (a nresults : Nat) :
    s.Confined floor (collectResults s w a nresults) := by
  simp only [collectResults, Window.shift]
  apply Confined.trans _ (clear_confined _ _ (by omega))
  apply Confined.trans _ (clear_confined _ _ (by omega))
  exact s.move_confined _ (by omega) (by omega)

/-- Results come from below the cursor, and only nil is put in the place of missing ones. -/
theorem collectResults_clear (w : Window) (a nresults : Nat) (clear : s.Clear) :
    (collectResults s w a nresults).Clear := by
  simp only [collectResults]
  refine clear_clear _ _ (clear_clear _ _ (move_clear clear ?_ ?_))
  · simp only [Window.shift]
    omega
  · simp only [Window.top]
    omega

theorem finish_confined (low : floor ≤ w.offset) (p : Proto) (pending : Pending) (c : Core) :
    c.context.stack.Confined floor (p.finish w pending c).2.context.stack := by
  have placed (t : RegisterStack) : t.Confined floor (w.setTop p.regs t).2 :=
    (w.setTop_disciplined p.regs low t).toConfined
  cases pending with
  | call base nresults => exact (collectResults_confined low _ base nresults).trans (placed _)
  | index dst => exact (set_confined _ _ (by omega)).trans (placed _)

/-- A lookup that left a value has the cursor above the frame; one that left none gives nil. -/
theorem set_lookup_clear {dst : Nat} (inside : dst < p.regs) (clear : s.Clear) :
    (w.set s dst ((p.scratch w).arg s 0)).Clear := by
  by_cases left : 0 < (p.scratch w).top s
  · refine set_clear _ clear ?_
    simp only [Window.top, scratch, Window.shift] at left
    omega
  · have nothing : (p.scratch w).arg s 0 = .nil := by rw [Window.arg, if_neg left]
    rw [nothing]
    exact clear_clear (w.offset + dst) 1 clear

theorem finish_clear {pending : Pending} (fits : pending.Fits p) {c : Core} (clear : c.context.stack.Clear) :
    (p.finish w pending c).2.context.stack.Clear := by
  have placed {t : RegisterStack} : t.Clear → (w.setTop p.regs t).2.Clear :=
    (w.setTop_disciplined p.regs (Nat.le_refl _) t).clear
  cases pending with
  | call base nresults => exact placed (collectResults_clear w base nresults clear)
  | index dst => exact placed (set_lookup_clear fits clear)

theorem resume_confined (low : floor ≤ w.offset) (p : Proto) (pending : Option Pending) (c : Core) :
    c.context.stack.Confined floor (p.resume w pending c).2.context.stack := by
  cases pending with
  | none => exact (w.setTop_disciplined p.regs low c.context.stack).toConfined
  | some pending => exact p.finish_confined low pending c

theorem resume_clear {pending : Option Pending} (fits : ∀ x, pending = some x → x.Fits p) {c : Core}
    (clear : c.context.stack.Clear) : (p.resume w pending c).2.context.stack.Clear := by
  cases pending with
  | none => exact (w.setTop_disciplined p.regs (Nat.le_refl _) c.context.stack).clear clear
  | some pending => exact finish_clear (fits pending rfl) clear

theorem effect_confined (low : floor ≤ w.offset) (p : Proto) (s : RegisterStack) (found : Option Instr) :
    s.Confined floor (p.effect w s found).2 := by
  have placed (t : RegisterStack) (v : Window) (n : Nat) (inside : floor ≤ v.offset) : t.Confined floor (v.setTop n t).2 :=
    (v.setTop_disciplined n inside t).toConfined
  have stored (dst : Nat) (v : Value) : s.Confined floor (w.set s dst v) := set_confined s v (by omega)
  have storing (dst : Nat) (value : Except ScriptError Value) : s.Confined floor (Effect.storing w s dst value).2 := by
    cases value with
    | error _ => exact .refl floor s
    | ok v => exact stored dst v
  cases found with
  | none =>
    rw [effect, Effect.after_stack]
    exact placed s w 0 low
  | some instr =>
    cases instr with
    | loadConst _ _ | loadNil _ | move _ _ => exact stored _ _
    | arith _ _ _ _ | compare _ _ _ _ | concat _ _ _ => exact storing _ _
    | jump _ | jumpIfNot _ _ | getField _ _ _ | charge _ | tick => exact .refl floor s
    | call base nargs nresults =>
      simp only [effect, Effect.after_stack]
      exact placed s _ nargs (Nat.le_add_right_of_le low)
    | ret first count =>
      simp only [effect, Effect.after_stack]
      split
      · exact (s.move_confined count (by omega) low).trans (placed _ w count low)
      · exact placed s w count low

/-- Verified instructions write inside the frame, which ends at the cursor. -/
theorem effect_clear (verified : p.verified = .ok p) (framed : p.Framed w s) (clear : s.Clear) :
    (p.effect w s p.code[pc]?).2.Clear := by
  have placed (v : Window) (n : Nat) {t : RegisterStack} : t.Clear → (v.setTop n t).2.Clear :=
    (v.setTop_disciplined n (Nat.le_refl _) t).clear
  have end_of_frame := framed.top
  have stored (dst : Nat) (v : Value) (inside : dst + 1 ≤ p.regs) : (w.set s dst v).Clear :=
    set_clear v clear (by omega)
  have storing (dst : Nat) (value : Except ScriptError Value) (inside : dst + 1 ≤ p.regs) :
      (Effect.storing w s dst value).2.Clear := by
    cases value with
    | error _ => exact clear
    | ok v => exact stored dst v inside
  cases found : p.code[pc]? with
  | none =>
    rw [effect, Effect.after_stack]
    exact placed w 0 clear
  | some instr =>
    have registers {stop : Nat} (demanded : .registers stop ∈ instr.operands) : stop ≤ p.regs :=
      registers_of_verified verified found demanded
    cases instr with
    | loadConst _ _ | loadNil _ | move _ _ => exact stored _ _ (registers (by simp [Instr.operands]))
    | arith _ _ _ _ | compare _ _ _ _ | concat _ _ _ => exact storing _ _ (registers (by simp [Instr.operands]))
    | jump _ | jumpIfNot _ _ | getField _ _ _ | charge _ | tick => exact clear
    | call base nargs nresults =>
      simp only [effect, Effect.after_stack]
      exact placed _ nargs clear
    | ret first count =>
      have inside : first + count ≤ p.regs := registers (by simp [Instr.operands])
      simp only [effect, Effect.after_stack]
      split
      · refine placed w count (move_clear clear (by omega) (.inr ?_))
        omega
      · exact placed w count clear

theorem step_stack (p : Proto) (f : FunctionId) (w : Window) (pc : Nat) (c : Core) :
    (p.step f w pc c).2.context.stack = (p.effect w c.context.stack p.code[pc]?).2 := by
  rcases p.place_cases pc with plain | ⟨cost, found⟩ | found
  · rw [step_plain c plain]
    rfl
  · rw [step_charge c found, found]
    rfl
  · rw [step_tick c found, found]
    split <;> rfl

theorem step_confined (low : floor ≤ w.offset) (p : Proto) (f : FunctionId) (pc : Nat) (c : Core) :
    c.context.stack.Confined floor (p.step f w pc c).2.context.stack := by
  rw [step_stack]
  exact p.effect_confined low _ _

theorem step_clear (verified : p.verified = .ok p) (f : FunctionId) {c : Core} (framed : p.Framed w c.context.stack)
    (clear : c.context.stack.Clear) : (p.step f w pc c).2.context.stack.Clear := by
  rw [step_stack]
  exact effect_clear verified framed clear

end Proto

open CoopScript.Core in
theorem Callable.resume_script_core (p : Proto) (f : FunctionId) (w : Window) (pc : Nat) (pending : Option Pending)
    (c : Core) : ((Callable.script p).resume f w (.script pc pending) c).2 = (p.resume w pending c).2 := by
  simp only [resume, Core.bind_apply, getStack_apply]
  rcases p.resume w pending c with ⟨_ | _, _⟩ <;> rfl

theorem Callable.resume_confined {floor : Nat} {w : Window} (low : floor ≤ w.offset) (called : Callable) (f : FunctionId)
    (saved : Saved) (c : Core) : c.context.stack.Confined floor (called.resume f w saved c).2.context.stack := by
  cases called with
  | script p =>
    cases saved with
    | script pc pending =>
      rw [resume_script_core]
      exact p.resume_confined low pending c
    | _ => exact .refl _ _
  | _ => exact (Callable.resume_disciplined low (by simp) f saved c).toConfined

namespace Activity

open CoopScript.Core in
/-- Every step keeps to the window that it works in. -/
theorem step_confined {floor : Nat} {a : Activity} (low : ∀ w ∈ a.window?, floor ≤ w.offset) (c : Core) :
    c.context.stack.Confined floor (a.step c).2.context.stack := by
  cases a with
  | returned => exact .refl _ _
  | dispatch r w =>
    have disciplined := (r.serve_disciplined (low w rfl)).bind fun b => .pure (.go b : Move)
    exact (disciplined c).toConfined
  | enter f w => exact ((c.world.callable f).invoke_disciplined (low w rfl) f c).toConfined
  | resume f w saved => exact (c.world.callable f).resume_confined (low w rfl) f saved c
  | running f w pc =>
    simp only [step, Core.bind_apply, getWorld_apply]
    cases c.world.callable f with
    | script p => exact p.step_confined (low w rfl) f pc c
    | _ => exact .refl _ _

end Activity

end CoopScript
