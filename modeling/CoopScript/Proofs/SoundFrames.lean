import CoopScript.Proofs.CallExtent

/-! Frames that can go on. A frame that waits says nothing of the kind of state it holds, so this
is kept as an invariant: the function of each frame expects its state, and a script finds its
registers where it left them, with room for the results it waits for. Verified scripts and the
functions of the library keep it, and they never fail for want of it. -/

namespace CoopScript

/-- What a function that goes on from a state in a window relies on. -/
structure Callable.Continues (called : Callable) (capacity : Nat) (base : Window) (saved : Saved) : Prop where
  expected : called.expects saved = true
  room : ∀ p, called = .script p → base.offset + p.regs ≤ capacity
  fits : ∀ p pc pending, called = .script p → saved = .script pc (some pending) → pending.Fits p

theorem Callable.Continues.of_other {called : Callable} {saved : Saved} (other : ∀ p, called ≠ .script p)
    (expected : called.expects saved = true) (capacity : Nat) (base : Window) :
    called.Continues capacity base saved :=
  ⟨expected, fun p script => absurd script (other p), fun p _ _ script => absurd script (other p)⟩

/-- A frame that has started can go on. -/
def Frame.Sound (w : World) (capacity : Nat) (frame : Frame) : Prop :=
  ∀ saved, frame.state = some saved → (w.callable frame.function).Continues capacity frame.base saved

namespace Activity

/-- A script runs with the cursor at the end of its frame, and what is resumed can go on. -/
def Supported (w : World) (s : RegisterStack) : Activity → Prop
  | .running f base _ => ∃ p, w.callable f = .script p ∧ p.Framed base s
  | .resume f base saved => (w.callable f).Continues s.capacity base saved
  | .returned | .dispatch _ _ | .enter _ _ => True

end Activity

def Move.Supported (w : World) (s : RegisterStack) : Move → Prop :=
  Satisfies (Activity.Supported w s) (Frame.Sound w s.capacity)

namespace Core

/-- A step leads to something supported or fails in an ordinary way. -/
def Proceeds : Except Failure Move × Core → Prop
  | (.ok move, d) => move.Supported d.world d.context.stack
  | (.error e, _) => e.Ordinary

/-- All failures of the operation are ordinary. -/
def Civil {α : Type} (op : CoreM α) : Prop := ∀ c e, (op c).1 = .error e → e.Ordinary

namespace Civil

theorem pure {α : Type} (a : α) : Civil (Pure.pure a : CoreM α) := by
  rintro _ _ ⟨⟩

theorem onStack {α : Type} (op : StackM α) : Civil (onStack op) := by
  intro c e failed
  rw [onStack_apply] at failed
  rcases ran : (op c.context.stack).1 with _ | _ <;> rw [ran] at failed <;> cases failed
  simp [Failure.Ordinary]

theorem raise {α : Type} (e : ScriptError) : Civil (throw (.script e) : CoreM α) := by
  rintro _ _ ⟨⟩
  simp [Failure.Ordinary]

theorem bind {α β : Type} {op : CoreM α} {next : α → CoreM β} (first : Civil op) (rest : ∀ a, Civil (next a)) :
    Civil (op >>= next) := by
  intro c e failed
  rw [bind_apply] at failed
  rcases ran : op c with ⟨_ | a, after⟩ <;> rw [ran] at failed
  · cases failed
    exact first c e (congrArg Prod.fst ran)
  · exact rest a after e failed

theorem getStack : Civil getStack := by
  rintro _ _ ⟨⟩

theorem modifyStack (change : RegisterStack → RegisterStack) : Civil (modifyStack change) := by
  rintro _ _ ⟨⟩

end Civil

end Core

open CoopScript.Core

theorem Request.serve_civil (r : Request) (w : Window) : Civil (r.serve w) := by
  have answered (op : StackM Unit) (a : Activity) : Civil (onStack op >>= fun _ => pure a) :=
    (Civil.onStack op).bind fun _ => .pure _
  refine Civil.bind (by rintro _ _ ⟨⟩) fun world => ?_
  split
  · exact .pure _
  · exact .pure _
  · split
    · exact answered _ _
    · exact .raise _
  · split
    · exact answered _ _
    · exact answered _ _
    · exact .raise _
  · split
    · exact answered _ _
    · exact answered _ _

namespace Proto

variable {p : Proto} {w : Window}

theorem enter_civil (p : Proto) (w : Window) : Civil (p.enter w) := by
  refine Civil.getStack.bind fun s => ?_
  split
  · exact (Civil.onStack _).bind fun _ => .onStack _
  · exact .onStack _

theorem resume_civil (p : Proto) (w : Window) (pending : Option Pending) : Civil (p.resume w pending) := by
  cases pending with
  | none => exact .onStack _
  | some pending => cases pending <;> exact (Civil.modifyStack _).bind fun _ => .onStack _

theorem effect_ordinary {s : RegisterStack} {found : Option Instr} {e : Failure}
    (failed : (p.effect w s found).1 = .error e) : e.Ordinary := by
  have placing {effect : Effect} {result : Except StackError Unit × RegisterStack}
      (failed : (effect.after result).1 = .error e) : e.Ordinary := by
    rcases result with ⟨_ | _, _⟩ <;> cases failed
    simp [Failure.Ordinary]
  have storing {dst : Nat} {value : Except ScriptError Value}
      (failed : (Effect.storing w s dst value).1 = .error e) : e.Ordinary := by
    rcases value with _ | _ <;> cases failed
    simp [Failure.Ordinary]
  cases found with
  | none => exact placing failed
  | some instr =>
    cases instr with
    | arith _ _ _ _ | compare _ _ _ _ | concat _ _ _ => exact storing failed
    | call _ _ _ | ret _ _ => exact placing failed
    | _ => cases failed

end Proto

/-- What carrying out an action can come to: the call is over, or its frame waits with the state
that the action saves, or there is no room on the stack. -/
inductive Action.Performed (a : Action) (f : FunctionId) (w : Window) (world : World) :
    Except Failure Move × Core → Prop where
  | returned {d : Core} (same : d.world = world) : Performed a f w world (.ok (.go .returned), d)
  | waits {d : Core} {s : Saved} (same : d.world = world) (saves : a.state? = some s) (r : Request) (inner : Window) :
      Performed a f w world (.ok (.call ⟨f, w, some s⟩ r inner), d)
  | suspended {d : Core} {s : Saved} (same : d.world = world) (saves : a.state? = some s) (reason : SuspendReason) :
      Performed a f w world (.ok (.suspend reason ⟨f, w, some s⟩), d)
  | failed {d : Core} (same : d.world = world) (e : StackError) : Performed a f w world (.error (.stack e), d)

theorem Action.perform_performed (a : Action) (f : FunctionId) (w : Window) (c : Core) :
    a.Performed f w c.world (a.perform f w c) := by
  have after {op : StackM Unit} {next : CoreM Move} {d : Core} (same : d.world = c.world)
      (rest : ∀ d : Core, d.world = c.world → a.Performed f w c.world (next d)) :
      a.Performed f w c.world ((onStack op >>= fun _ => next) d) := by
    rw [bind_apply, onStack_apply]
    rcases (op d.context.stack).1 with e | _
    · exact .failed (d := d.withStack (op d.context.stack).2) same e
    · exact rest _ same
  cases a with
  | done => exact .returned rfl
  | ret results | takeOver shift => exact after rfl fun d same => .returned same
  | suspend reason state => exact .suspended rfl rfl reason
  | call callee args shift state => exact after rfl fun d same => after same fun d same => .waits same rfl _ _
  | forward function receiver state =>
    cases receiver with
    | none => exact .waits rfl rfl _ _
    | some v => exact after rfl fun d same => .waits same rfl _ _
  | index object key state | textOf value state => exact .waits rfl rfl _ _
  | spend cost state =>
    have charged : (modifyBudget (Budget.charge · cost) c) = (.ok (), c.withBudget (c.context.budget.charge cost)) := rfl
    simp only [perform, bind_apply, charged, tick_apply]
    cases (c.withBudget (c.context.budget.charge cost)).context.budget.isExhausted with
    | true =>
      refine Performed.suspended ?_ ?_ .preempted
      · rfl
      · rfl
    | false => exact .returned rfl

/-- A function other than a script that keeps to the states it expects can go on from them. -/
theorem Action.perform_proceeds {called : Callable} (other : ∀ p, called ≠ .script p) {a : Action}
    (suits : a.Suits called.expects) {f : FunctionId} {c : Core}
    (kept : called.isResumable = true → c.world.callable f = called) (w : Window) : Proceeds (a.perform f w c) := by
  have sound {d : Core} {s : Saved} (same : d.world = c.world) (saves : a.state? = some s) :
      Frame.Sound d.world d.context.stack.capacity ⟨f, w, some s⟩ := by
    rintro _ ⟨⟩
    rcases suits with (rfl | ⟨_, rfl⟩) | ⟨_, same', expected⟩
    · cases saves
    · cases saves
    · cases same'.symm.trans saves
      change (d.world.callable f).Continues _ w s
      rw [same, kept (called.isResumable_of_expects expected)]
      exact .of_other other expected _ _
  have performed := a.perform_performed f w c
  generalize a.perform f w c = result at performed
  cases performed with
  | returned same => trivial
  | waits same saves r inner => exact ⟨sound same saves, trivial⟩
  | suspended same saves reason => exact sound same saves
  | failed same e => simp [Proceeds, Failure.Ordinary]

theorem Core.proceeds_of_ensures {called : Callable} {f : FunctionId} {c : Core} (found : c.world.callable f = called)
    (other : ∀ p, called ≠ .script p) {op : WorldM Action} (ensures : World.Ensures (Action.Suits called.expects) op)
    (w : Window) : Proceeds ((onWorld op >>= fun a => a.perform f w) c) := by
  have outcome := ensures c.world
  have ran : onWorld op c = ((op c.world).1, { c with world := (op c.world).2 }) := rfl
  rw [bind_apply, ran]
  generalize op c.world = result at outcome
  cases outcome with
  | @answer a v grown suits =>
    refine a.perform_proceeds other suits ?_ w
    intro resumable
    rw [← found] at resumable ⊢
    exact grown.grows.retains f resumable
  | failure grown ordinary => exact ordinary

theorem Proto.proceeds_of_framed {p : Proto} {f : FunctionId} {w : Window} {c : Core} {op : CoreM Unit}
    (found : c.world.callable f = .script p) (stacked : Local op) (civil : Civil op)
    (framed : (op c).1 = .ok () → p.Framed w (op c).2.context.stack) (pc : Nat) :
    Proceeds ((op >>= fun _ => pure (.go (.running f w pc))) c) := by
  have unchanged := stacked c c rfl
  rw [bind_apply]
  rcases ran : op c with ⟨e | _, d⟩ <;> rw [ran] at framed unchanged
  · exact civil c e (congrArg Prod.fst ran)
  · have same : d.world = c.world := congrArg (·.2.world) unchanged
    exact ⟨p, same ▸ found, framed rfl⟩

namespace Callable

variable {f : FunctionId} {w : Window} {c : Core}

theorem invoke_proceeds (shipped : (c.world.callable f).Shipped) : Proceeds ((c.world.callable f).invoke f w c) := by
  cases found : c.world.callable f with
  | script p =>
    exact Proto.proceeds_of_framed found (p.enter_local w) (p.enter_civil w) Proto.enter_framed 0
  | builtin b => exact proceeds_of_ensures found (by simp) (World.invoke_ensures b _) w
  | «matches» cursor =>
    have other (p : Proto) : Callable.matches cursor ≠ .script p := by simp
    have performed : Proceeds ((Action.ret cursor.advance.1).perform f w
        { c with world := c.world.setCallable f (.matches cursor.advance.2) }) :=
      Action.perform_proceeds other (.ret _) (by rintro ⟨⟩) w
    exact performed
  | lines file formats =>
    exact proceeds_of_ensures found (by simp) (World.nextItems_ensures (lines_expects file formats) file formats) w
  | host h =>
    rw [found] at shipped
    cases shipped

theorem resume_proceeds {saved : Saved} (continues : (c.world.callable f).Continues c.context.stack.capacity w saved) :
    Proceeds ((c.world.callable f).resume f w saved c) := by
  have expected := continues.expected
  cases found : c.world.callable f with
  | script p =>
    rw [found] at expected
    cases saved with
    | script pc pending =>
      exact Proto.proceeds_of_framed found (p.resume_local w pending) (p.resume_civil w pending) Proto.resume_framed pc
    | _ => cases expected
  | builtin b =>
    rw [found] at expected
    exact proceeds_of_ensures found (by simp) (World.resume_ensures expected _) w
  | lines file formats =>
    rw [found] at expected
    cases saved with
    | reading r => exact proceeds_of_ensures found (by simp) (World.readItems_ensures (lines_expects file formats) _ _ _ _) w
    | _ => cases expected
  | «matches» _ | host _ =>
    rw [found] at expected
    cases saved <;> cases expected

end Callable

namespace Proto

variable {p : Proto} {f : FunctionId} {w : Window} {c : Core}

/-- A verified script that waits can take the results that it waits for. -/
private theorem continues_of_framed {s : RegisterStack} (framed : p.Framed w s) {pending : Option Pending}
    (fits : ∀ x, pending = some x → x.Fits p) (pc : Nat) :
    (Callable.script p).Continues s.capacity w (.script pc pending) := by
  refine ⟨rfl, ?_, ?_⟩
  · rintro _ ⟨⟩
    exact framed.fits
  · rintro _ _ pending ⟨⟩ same
    cases same
    exact fits pending rfl

private theorem stepOf_proceeds (verified : p.verified = .ok p) (found : c.world.callable f = .script p)
    (framed : p.Framed w c.context.stack) (pc : Nat) :
    Proceeds (stepOf f w pc c (p.effect w c.context.stack p.code[pc]?)) := by
  have capacity := (p.effect_confined (Nat.zero_le _) (w := w) c.context.stack p.code[pc]?).capacity
  rcases done : p.effect w c.context.stack p.code[pc]? with ⟨e | effect, s⟩ <;> rw [done] at capacity
  · exact effect_ordinary (congrArg Prod.fst done)
  · have reached := congrArg Prod.fst done
    have stays := effect_framed framed reached
    rw [done] at stays
    cases effect with
    | advance => exact ⟨p, found, stays (.inl rfl)⟩
    | jump target => exact ⟨p, found, stays (.inr ⟨target, rfl⟩)⟩
    | leave => trivial
    | await pending r callee =>
      obtain ⟨made, _⟩ := effect_await reached
      refine ⟨?_, trivial⟩
      rintro _ ⟨⟩
      change (c.world.callable f).Continues s.capacity w _
      rw [found, capacity]
      refine continues_of_framed framed ?_ _
      rintro _ ⟨⟩
      exact pending_fits verified made

theorem step_proceeds (verified : p.verified = .ok p) (found : c.world.callable f = .script p)
    (framed : p.Framed w c.context.stack) (pc : Nat) : Proceeds (p.step f w pc c) := by
  rcases p.place_cases pc with plain | ⟨cost, charge⟩ | tick
  · rw [step_plain c plain]
    exact stepOf_proceeds verified found framed pc
  · rw [step_charge c charge]
    exact ⟨p, found, framed⟩
  · rw [step_tick c tick]
    split
    · rintro _ ⟨⟩
      change (c.world.callable f).Continues c.context.stack.capacity w _
      rw [found]
      exact continues_of_framed framed (by simp) _
    · exact ⟨p, found, framed⟩

end Proto

namespace Activity

theorem step_proceeds {a : Activity} {c : Core} (works : a.Runs Callable.Shipped c.world)
    (supported : a.Supported c.world c.context.stack) : Proceeds (a.step c) := by
  cases a with
  | returned => trivial
  | dispatch r w =>
    simp only [step, bind_apply]
    rcases served : r.serve w c with ⟨e | a, d⟩
    · exact r.serve_civil w c e (congrArg Prod.fst served)
    · cases Request.serve_served (congrArg Prod.fst served) <;> trivial
  | enter f w => exact Callable.invoke_proceeds (works.allowed f rfl)
  | resume f w saved => exact Callable.resume_proceeds supported
  | running f w pc =>
    obtain ⟨p, found, framed⟩ := supported
    have verified : (c.world.callable f).Shipped := works.allowed f rfl
    rw [found] at verified
    rw [step_running found]
    exact Proto.step_proceeds verified found framed pc

end Activity

theorem Frame.Sound.of_retains {w v : World} {capacity : Nat} {frame : Frame} (retains : w.Retains v)
    (sound : frame.Sound w capacity) : frame.Sound v capacity := by
  intro saved started
  have continues := sound saved started
  rw [retains _ (Callable.isResumable_of_expects continues.expected)]
  exact continues

/-- Verified scripts and library functions leave only frames that can go on. -/
def Invariant.sound : Invariant Callable.Shipped where
  state s := s.top ≤ s.capacity
  activity := Activity.Supported
  frame := Frame.Sound
  waits retains sound := sound.of_retains retains
  returned := trivial
  taken := by
    rintro w s ⟨f, base, state⟩ sound
    cases state with
    | none => trivial
    | some saved => exact sound saved rfl
  stepped := by
    intro c d a result _ works fits supported stepped
    have confined := a.step_confined (fun _ _ => Nat.zero_le _) c
    have proceeds := a.step_proceeds works supported
    rw [stepped] at confined proceeds
    refine ⟨confined.fits fits, ?_⟩
    rintro move rfl
    exact proceeds

/-- In a drain, a call that is still on fails in an ordinary way if at all. -/
theorem Machine.Holds.ordinary {m last : Machine} {base : List Frame} {e : Failure} (holds : m.Holds .sound base)
    (works : m.activity.Runs Callable.Shipped m.core.world) (ongoing : m.activity = .returned → m.frames ≠ base)
    (draining : m.core.context.draining = true) (halted : m.step = .inr (.failed e, last)) : e.Ordinary := by
  have proceeds := m.activity.step_proceeds works holds.activity
  cases Halted.of_step halted with
  | @refused frame rest returned waiting started unable =>
    obtain ⟨inner, same, sound⟩ := holds.frames
    cases inner with
    | nil => exact absurd same (ongoing returned)
    | cons first inner =>
      obtain ⟨rfl, _⟩ := List.cons.inj (waiting.symm.trans same)
      obtain ⟨saved, started⟩ := Option.isSome_iff_exists.mp started
      have continues := sound frame List.mem_cons_self saved started
      rw [Callable.isResumable_of_expects continues.expected] at unable
      cases unable
  | failed working stepped =>
    rw [stepped] at proceeds
    exact proceeds
  | stranded working stepped undrained =>
    have kept := (m.activity.step_keeps m.core).draining
    rw [stepped] at kept
    cases undrained.symm.trans (kept.trans draining)

end CoopScript
