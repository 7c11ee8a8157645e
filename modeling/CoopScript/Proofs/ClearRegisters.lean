import CoopScript.Proofs.SoundFrames

/-! Registers above the cursor. Raising the cursor clears nothing, so a frame starts with empty
registers only because every slot from the cursor on is nil at all times. Instructions write
without a look at the cursor; that they write below it is what the verification of their code and
the soundness of the frames that wait are for. -/

namespace CoopScript

open RegisterStack

namespace Activity

open CoopScript.Core

theorem step_clear {a : Activity} {c : Core} (works : a.Runs Callable.Shipped c.world)
    (supported : a.Supported c.world c.context.stack) (clear : c.context.stack.Clear) :
    (a.step c).2.context.stack.Clear := by
  cases a with
  | returned => exact clear
  | dispatch r w => exact (((r.serve_disciplined (Nat.le_refl _)).bind fun b => .pure (.go b : Move)) c).clear clear
  | enter f w => exact ((c.world.callable f).invoke_disciplined (Nat.le_refl _) f c).clear clear
  | running f w pc =>
    obtain ⟨p, found, framed⟩ := supported
    have verified : (c.world.callable f).Shipped := works.allowed f rfl
    rw [found] at verified
    rw [step_running found]
    exact Proto.step_clear verified f framed clear
  | resume f w saved =>
    rw [step_resume]
    cases found : c.world.callable f with
    | script p =>
      cases saved with
      | script pc pending =>
        rw [Callable.resume_script_core]
        exact Proto.resume_clear (fun x waits => supported.fits p pc x found (waits ▸ rfl)) clear
      | _ => exact clear
    | _ => exact (Callable.resume_disciplined (Nat.le_refl _) (by simp) f saved c).clear clear

end Activity

/-- Verified scripts and library functions leave nothing from the cursor on. -/
def Invariant.clear : Invariant Callable.Shipped :=
  { Invariant.sound with
    state := Clear
    stepped := by
      intro c d a result working works clear supported stepped
      have cleared := a.step_clear works supported clear
      rw [stepped] at cleared
      exact ⟨cleared, (Invariant.sound.stepped working works clear.fits supported stepped).2⟩ }

namespace Window

theorem values_getElem? {w : Window} {s : RegisterStack} (fits : s.top ≤ s.capacity) (i : Nat) :
    (w.values s)[i]? = if i < w.top s then some (w.get s i) else none := by
  simp only [capacity, top, values, slice, get, RegisterStack.get, Array.getElem?_toList, Array.getElem?_extract,
    Array.getD_eq_getD_getElem?] at fits ⊢
  by_cases inside : i < s.top - w.offset
  · have there : w.offset + i < s.slots.size := by omega
    rw [if_pos (by omega), if_pos inside, Array.getElem?_eq_getElem there]
    rfl
  · rw [if_neg (by omega), if_neg inside]

end Window

namespace Proto

open CoopScript.Core

variable {p : Proto} {w : Window} {c : Core}

private theorem raised_of_placed {n : Nat} (placed : (onStack (w.setTop n) c).1 = .ok ()) :
    onStack (w.setTop n) c = (.ok (), c.withStack (c.context.stack.raised (w.offset + n))) := by
  rw [onStack_apply, Window.setTop, setTop_apply] at placed ⊢
  by_cases beyond : c.context.stack.capacity < w.offset + n
  · rw [if_pos beyond] at placed
    cases placed
  · rw [if_neg beyond]
    rfl

/-- Entering a script drops surplus arguments and raises the cursor to the end of the frame. -/
theorem enter_stack (entered : (p.enter w c).1 = .ok ()) : (p.enter w c).2.context.stack =
    (if p.params < w.top c.context.stack then c.context.stack.raised (w.offset + p.params)
      else c.context.stack).raised (w.offset + p.regs) := by
  simp only [enter, Core.bind_apply, getStack_apply] at entered ⊢
  split at entered
  · next surplus =>
    rw [if_pos surplus, if_pos surplus]
    rw [Core.bind_apply] at entered ⊢
    rcases dropped : onStack (w.setTop p.params) c with ⟨e | _, d⟩ <;> rw [dropped] at entered
    · cases entered
    · cases dropped.symm.trans (raised_of_placed (congrArg Prod.fst dropped))
      exact congrArg (·.2.context.stack) (raised_of_placed entered)
  · next exact =>
    rw [if_neg exact, if_neg exact]
    exact congrArg (·.2.context.stack) (raised_of_placed entered)

/-- The registers of a script that has been entered: its arguments, as many as it has parameters,
and nil. -/
theorem enter_registers (enough : p.params ≤ p.regs) (clear : c.context.stack.Clear)
    (entered : (p.enter w c).1 = .ok ()) (i : Nat) : w.get (p.enter w c).2.context.stack i =
      ((w.values c.context.stack).take p.params)[i]?.getD .nil := by
  have argument : ((w.values c.context.stack).take p.params)[i]?.getD .nil =
      if i < p.params ∧ i < w.top c.context.stack then w.get c.context.stack i else .nil := by
    rw [List.getElem?_take, Window.values_getElem? clear.fits]
    split <;> split <;> simp_all
  have empty (above : ¬i < w.top c.context.stack) : w.get c.context.stack i = .nil := by
    apply clear.empty
    simp only [Window.top] at above
    omega
  rw [argument, enter_stack entered, Window.get, get_raised]
  by_cases surplus : p.params < w.top c.context.stack
  · have height : (c.context.stack.raised (w.offset + p.params)).top = w.offset + p.params := rfl
    rw [if_pos surplus, height, if_neg (by omega), get_raised]
    by_cases kept : i < p.params
    · rw [if_neg (by omega), if_pos ⟨kept, by omega⟩]
      rfl
    · rw [if_neg (c := i < p.params ∧ _) (by omega)]
      split
      · rfl
      · next above =>
        apply empty
        simp only [Window.top]
        omega
  · have low : c.context.stack.top ≤ w.offset + p.params := by
      simp only [Window.top] at surplus
      omega
    rw [if_neg surplus, if_neg (by omega)]
    by_cases given : i < w.top c.context.stack
    · rw [if_pos ⟨by omega, given⟩]
      rfl
    · rw [if_neg (by omega)]
      exact empty given

end Proto

namespace Executor

/-- The machines that an executor runs: that of a drain, and those of a request or a call that is
served in a window outside a drain. -/
inductive Begins (w : World) (e : Executor) : Machine → Prop where
  | drain : Begins w e (e.machine w)
  | request (r : Request) (base : Window) : Begins w e { core := ⟨w, e.context⟩, activity := .dispatch r base }
  | call (f : FunctionId) (base : Window) : Begins w e { core := ⟨w, e.context⟩, activity := .enter f base }

/-- The states of an executor that runs verified scripts and library functions, with the world it
is in. Others may work on the world meanwhile, but functions that can be resumed are retained. -/
inductive Reachable : World → Executor → Prop where
  | fresh {w : World} {config : EngineConfig} {e : Executor} (made : Executor.new config = .ok e) : Reachable w e
  | pushed {w : World} {e : Executor} (before : Reachable w e) (f : FunctionId) (args : List Value) :
      Reachable w (e.pushCall f args).2
  | drained {w v : World} {e after : Executor} {fuel : Nat} {result : Except Failure Drain} (before : Reachable w e)
      (involved : ∀ c ∈ (e.machine w).involved fuel, c.Shipped) (ran : drain fuel w e = some (result, v, after)) :
      Reachable v after
  | taken {w : World} {e : Executor} (before : Reachable w e) : Reachable w e.takeResults.2
  | opened {w : World} {e : Executor} (before : Reachable w e) (base : Nat) (args : List Value) :
      Reachable w (e.onStack (RegisterStack.window base >>= (Window.pushAll · args))).2
  | served {w v : World} {e after : Executor} {a : Activity} {fuel : Nat} {result : Except Failure Unit}
      (before : Reachable w e) (begins : e.Begins w { core := ⟨w, e.context⟩, activity := a })
      (involved : ∀ c ∈ ({ core := ⟨w, e.context⟩, activity := a } : Machine).involved fuel, c.Shipped)
      (ran : serve fuel w e a = some (result, v, after)) : Reachable v after
  | meanwhile {w v : World} {e : Executor} (before : Reachable w e) (retains : w.Retains v) : Reachable v e

/-- There is nothing from the cursor on, and the frames of the pending call can go on. -/
structure Sound (w : World) (e : Executor) : Prop where
  clear : e.context.stack.Clear
  frames : ∀ frame ∈ e.callStack, frame.Sound w e.context.stack.capacity

variable {w v : World} {e : Executor} {m last : Machine}

theorem involved_of_shipped (shipped : w.Shipped) (e : Executor) (fuel : Nat) :
    ∀ c ∈ (e.machine w).involved fuel, c.Shipped :=
  Machine.involved_shipped shipped fuel

theorem Begins.holds (begins : e.Begins w m) (sound : e.Sound w) : m.Holds .clear [] := by
  cases begins with
  | drain => exact ⟨sound.clear, trivial, e.callStack, (List.append_nil _).symm, sound.frames⟩
  | request r base | call f base => exact ⟨sound.clear, trivial, [], rfl, by simp⟩

namespace Sound

theorem of_idle (clear : e.context.stack.Clear) (idle : e.callStack = []) : e.Sound w := by
  refine ⟨clear, ?_⟩
  simp [idle]

theorem of_retains (sound : e.Sound w) (retains : w.Retains v) : e.Sound v :=
  ⟨sound.clear, fun frame member => (sound.frames frame member).of_retains retains⟩

theorem new {config : EngineConfig} (made : Executor.new config = .ok e) : e.Sound w := by
  simp only [Executor.new, RegisterStack.new] at made
  split at made
  · cases made
  · cases made
    refine of_idle ⟨Nat.zero_le _, ?_⟩ rfl
    intro i _
    simp only [RegisterStack.get, Array.getD_eq_getD_getElem?, Array.getElem?_replicate]
    split <;> rfl

theorem onStack {α : Type} {op : StackM α} (sound : e.Sound w) (disciplined : RegisterStack.Disciplined 0 op) :
    (e.onStack op).2.Sound w := by
  have orderly := disciplined e.context.stack
  refine ⟨orderly.clear sound.clear, ?_⟩
  intro frame member
  have waits := sound.frames frame member
  rw [← orderly.capacity] at waits
  exact waits

theorem cleared (sound : e.Sound w) : e.cleared.Sound w := by
  refine ⟨emptied_clear _ sound.clear, ?_⟩
  intro frame member
  have waits := sound.frames frame member
  rw [← clear_capacity e.context.stack 0 e.context.stack.top] at waits
  exact waits

theorem pushCall (sound : e.Sound w) (f : FunctionId) (args : List Value) : (e.pushCall f args).2.Sound w := by
  have filled := sound.cleared.onStack (Window.pushAll_disciplined (w := ⟨0⟩) args (Nat.zero_le _))
  simp only [Executor.pushCall]
  split
  · exact sound
  · split
    · next entered =>
      rw [entered] at filled
      refine ⟨filled.clear, ?_⟩
      simp [Frame.Sound]
    · next refused =>
      rw [refused] at filled
      exact filled

theorem takeResults (sound : e.Sound w) : e.takeResults.2.Sound w := by
  simp only [Executor.takeResults]
  split
  · exact ⟨sound.cleared.clear, sound.cleared.frames⟩
  · exact sound

/-- A drain leaves frames that can go on if it is suspended, and no frames if it ends. -/
theorem drain (sound : e.Sound w) {fuel : Nat} {result : Except Failure Drain} {after : Executor}
    (involved : ∀ c ∈ (e.machine w).involved fuel, c.Shipped) (ran : Executor.drain fuel w e = some (result, v, after)) :
    after.Sound v := by
  obtain ⟨-, rfl, rfl⟩ | ⟨halt, last, rested, rfl, -, rfl⟩ := of_drain ran
  · exact sound
  · obtain ⟨final, during, works, halted⟩ := Machine.During.of_run .here involved rested
    have holds := during.holds (Begins.drain.holds sound)
    have clear : last.core.context.stack.Clear := holds.halted works halted
    cases halt with
    | finished => exact of_idle clear rfl
    | failed e => exact of_idle (emptied_clear _ clear) rfl
    | paused reason =>
      obtain ⟨inner, saved, waits⟩ := holds.saved works halted
      refine ⟨clear, ?_⟩
      intro frame member
      change frame ∈ last.pending at member
      rw [saved, List.append_nil] at member
      exact waits frame member

theorem serve (sound : e.Sound w) {a : Activity} (begins : e.Begins w { core := ⟨w, e.context⟩, activity := a })
    {fuel : Nat} {result : Except Failure Unit} {after : Executor}
    (involved : ∀ c ∈ ({ core := ⟨w, e.context⟩, activity := a } : Machine).involved fuel, c.Shipped)
    (ran : Executor.serve fuel w e a = some (result, v, after)) : after.Sound v := by
  simp only [Executor.serve] at ran
  cases rested : ({ core := ⟨w, e.context⟩, activity := a } : Machine).run fuel with
  | none =>
    rw [rested] at ran
    cases ran
  | some halted =>
    obtain ⟨halt, last⟩ := halted
    rw [rested] at ran
    cases ran
    obtain ⟨final, during, works, halted⟩ := Machine.During.of_run .here involved rested
    have sustains := Machine.run_sustains rested
    refine ⟨(during.holds (begins.holds sound)).halted works halted, ?_⟩
    intro frame member
    have waits := (sound.frames frame member).of_retains sustains.retains
    rw [← sustains.capacity] at waits
    exact waits

end Sound

theorem Reachable.sound (reachable : Reachable w e) : e.Sound w := by
  induction reachable with
  | fresh made => exact .new made
  | pushed _ f args ih => exact ih.pushCall f args
  | drained _ involved ran ih => exact ih.drain involved ran
  | taken _ ih => exact ih.takeResults
  | opened _ base args ih =>
    refine ih.onStack (Disciplined.bind ?_ fun window => Window.pushAll_disciplined args (Nat.zero_le _))
    exact (setTop_disciplined (Nat.zero_le _)).bind fun _ => .pure _
  | served _ begins involved ran ih => exact ih.serve begins involved ran
  | meanwhile _ retains ih => exact ih.of_retains retains

/-- Whatever an executor has run, there is nothing from the cursor on: not while it rests, not
between two steps of what it runs, and not where that comes to rest. So a script is entered with
its arguments in the registers of its parameters and nil in all others. -/
theorem Reachable.registers_clear (reachable : Reachable w e) : e.context.stack.Clear ∧
    ∀ first m, e.Begins w first → Machine.During Callable.Shipped [] first m →
      m.activity.Runs Callable.Shipped m.core.world → m.core.context.stack.Clear ∧
        (∀ halt last, m.step = .inr (halt, last) → last.core.context.stack.Clear) ∧
        ∀ f base p next, m.activity = .enter f base → m.core.world.callable f = .script p → m.step = .inl next →
          next.activity = .running f base 0 ∧ ∀ i, base.get next.core.context.stack i =
            ((base.values m.core.context.stack).take p.params)[i]?.getD .nil := by
  refine ⟨reachable.sound.clear, ?_⟩
  intro first m begins during works
  have holds := during.holds (begins.holds reachable.sound)
  refine ⟨holds.state, fun _ _ halted => holds.halted works halted, ?_⟩
  intro f base p next entered script moved
  have verified : (m.core.world.callable f).Shipped := works.allowed f (by rw [entered]; rfl)
  rw [script] at verified
  rw [Machine.step_working entered (by simp), Activity.step_enter, script] at moved
  simp only [Callable.invoke, Core.bind_apply, Core.getStack_apply] at moved
  have registers := Proto.enter_registers (w := base) (Proto.params_of_verified verified) holds.state
  rcases ran : p.enter base m.core with ⟨_ | _, d⟩ <;> rw [ran] at moved registers <;> cases moved
  exact ⟨rfl, registers rfl⟩

private def keeping : World := { functions := #[.script ⟨"keeping", 1, 2, [], [.move 1 0, .ret 0 2]⟩] }

private def spare : Executor :=
  { context := { stack := ⟨#[.nil, .nil, .nil], 0⟩, budget := Budget.new {} } }

private def used : Executor :=
  { context := { stack := ⟨#[.bool true, .bool true, .nil], 2⟩, budget := ⟨10000, some 10000, 0, 0⟩ }
    callStack := []
    state := .finished }

private def again : Executor := (used.pushCall ⟨0⟩ []).2

/-- A script that copied its argument finds no trace of it when it is called again without one. -/
theorem Reachable.registers_clear_again : ∃ next, ((again.machine keeping).driven 1).step = .inl next ∧
    next.core.context.stack.top = 2 ∧ next.core.context.stack.get 1 = .nil := by
  have shipped : keeping.Shipped := by decide
  have made : Executor.new { stackCapacity := 3 } = .ok spare := rfl
  have ran : drain 10 keeping (spare.pushCall ⟨0⟩ [.bool true, .bool false]).2 =
      some (.ok .finished, keeping, used) := by cbv
  have reachable : Reachable keeping again :=
    .pushed (.drained (.pushed (.fresh made) _ _) (involved_of_shipped shipped _ 10) ran) _ _
  obtain ⟨during, works⟩ := Machine.During.driven (m := again.machine keeping) shipped .here 1
  obtain ⟨next, moved, top⟩ : ∃ next, ((again.machine keeping).driven 1).step = .inl next ∧
      next.core.context.stack.top = 2 := ⟨_, by cbv, rfl⟩
  have started := (reachable.registers_clear.2 _ _ .drain during works).2.2 ⟨0⟩ ⟨0⟩ _ next rfl rfl moved
  exact ⟨next, moved, top, started.2 1⟩

end Executor

end CoopScript
