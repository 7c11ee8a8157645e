import CoopScript.Proofs.ClearRegisters
import CoopScript.Proofs.WindowIsolation

/-! The calling convention of scripts. Arguments and results are not copied between frames: the
window of a callee starts right above the register that names it, and results are shifted down in
place. What a script finds when it is called, and what its caller finds afterwards, rests on the
slots from the cursor on being empty and those below the callee's window being left alone, through
all calls and suspensions in between. -/

namespace CoopScript

open RegisterStack

/-- A state other than that of a script. -/
def Saved.Foreign (s : Saved) : Prop := ∀ pc pending, s ≠ .script pc pending

def Reply.Foreign (r : Reply) : Prop := ∀ a s, r.outcome = .ok a → a.state? = some s → s.Foreign

/-- The script is verified, or the function is of the library or of a host, which has no means to
make up the state of a script. -/
def Callable.Proper : Callable → Prop
  | .script p => p.verified = .ok p
  | .builtin _ | .matches _ | .lines _ _ => True
  | .host h => (∀ held, (h.invoke held).Foreign) ∧ ∀ s held, (h.resume s held).Foreign

/-- What is resumed can go on, or it refuses a state that is not a script's. -/
def Activity.Backed (w : World) (s : RegisterStack) (a : Activity) : Prop :=
  a.Supported w s ∨ ∃ f base saved, a = .resume f base saved ∧ saved.Foreign

def Frame.Backed (w : World) (capacity : Nat) (frame : Frame) : Prop :=
  frame.Sound w capacity ∨ ∃ saved, frame.state = some saved ∧ saved.Foreign

open CoopScript.Core

section Host

variable {f : FunctionId} {w : Window} {c : Core} {r : Reply}

theorem Reply.action_apply (r : Reply) (c : Core) : onWorld r.action c =
    (r.outcome, { c with world := { c.world with log := c.world.log ++ r.log } }) := by
  obtain ⟨log, outcome⟩ := r
  cases outcome <;> rfl

/-- A frame that waits for a host function holds no state of a script. -/
theorem Reply.perform_backed (foreign : r.Foreign) {move : Move} {d : Core}
    (performed : (onWorld r.action >>= fun a => a.perform f w) c = (.ok move, d)) :
    move.Satisfies (Activity.Backed d.world d.context.stack) (Frame.Backed d.world d.context.stack.capacity) := by
  rw [Core.bind_apply, r.action_apply] at performed
  cases answered : r.outcome with
  | error e =>
    rw [answered] at performed
    cases performed
  | ok a =>
    rw [answered] at performed
    have outcome := a.perform_performed f w { c with world := { c.world with log := c.world.log ++ r.log } }
    simp only at performed
    rw [performed] at outcome
    have backed {s : Saved} (saves : a.state? = some s) :
        Frame.Backed d.world d.context.stack.capacity ⟨f, w, some s⟩ := .inr ⟨s, rfl, foreign a s answered saves⟩
    cases outcome with
    | returned same => exact .inl trivial
    | waits same saves r inner => exact ⟨backed saves, .inl trivial⟩
    | suspended same saves reason => exact backed saves

end Host

/-- A function of the library and a script go on from a foreign state only if it is their own. -/
theorem Callable.resume_foreign {called : Callable} (shipped : called.Shipped) {saved : Saved} (foreign : saved.Foreign)
    (f : FunctionId) (w : Window) (c : Core) (capacity : Nat) :
    called.Continues capacity w saved ∨ ∃ e, called.resume f w saved c = (.error e, c) := by
  cases expected : called.expects saved with
  | true =>
    refine .inl (.of_other ?_ expected _ _)
    rintro p rfl
    cases saved with
    | script pc pending => exact foreign pc pending rfl
    | _ => cases expected
  | false =>
    refine .inr ?_
    cases called with
    | script p => cases saved <;> first | exact ⟨_, rfl⟩ | cases expected
    | builtin b =>
      have refused := b.resume_unexpected expected (w.values c.context.stack) c.world
      have ran (op : WorldM Action) : onWorld op c = ((op c.world).1, { c with world := (op c.world).2 }) := rfl
      refine ⟨.protocol (if b.isResumable then .stateMismatch b.name else .notSuspendable b.name), ?_⟩
      change (onWorld (b.resume saved (w.values c.context.stack)) >>= fun a => a.perform f w) c = _
      rw [Core.bind_apply, ran, refused]
    | «matches» cursor => exact ⟨_, rfl⟩
    | lines file formats => cases saved <;> first | exact ⟨_, rfl⟩ | cases expected
    | host h => cases shipped

namespace Activity

variable {a : Activity} {c d : Core} {result : Except Failure Move}

/-- The registers are clear, and what follows is backed. -/
private def Proper (result : Except Failure Move) (d : Core) : Prop :=
  d.context.stack.Clear ∧ ∀ move, result = .ok move →
    move.Satisfies (Backed d.world d.context.stack) (Frame.Backed d.world d.context.stack.capacity)

private theorem host_proper {f : FunctionId} {h : HostFunction} (active : a.function? = some f)
    (host : c.world.callable f = .host h) (proper : (Callable.host h).Proper) (clear : c.context.stack.Clear)
    (backed : a.Backed c.world c.context.stack) (stepped : a.step c = (result, d)) : Proper result d := by
  cases a with
  | returned | dispatch _ _ => cases active
  | enter g w =>
    cases active
    rw [step_enter, host] at stepped
    have orderly := (Callable.host h).invoke_disciplined (Nat.le_refl w.offset) f c
    rw [stepped] at orderly
    refine ⟨orderly.clear clear, ?_⟩
    rintro move rfl
    exact Reply.perform_backed (proper.1 _) stepped
  | resume g w saved =>
    cases active
    rw [step_resume, host] at stepped
    have other (p : Proto) : Callable.host h ≠ .script p := by simp
    have orderly := Callable.resume_disciplined (Nat.le_refl w.offset) other f saved c
    rw [stepped] at orderly
    refine ⟨orderly.clear clear, ?_⟩
    rintro move rfl
    exact Reply.perform_backed (proper.2 _ _) stepped
  | running g w pc =>
    cases active
    rcases backed with ⟨p, script, _⟩ | ⟨_, _, _, other, _⟩
    · cases host.symm.trans script
    · cases other

private theorem supported_proper (works : a.Runs Callable.Shipped c.world) (clear : c.context.stack.Clear)
    (supported : a.Supported c.world c.context.stack) (stepped : a.step c = (result, d)) : Proper result d := by
  have cleared := a.step_clear works supported clear
  have proceeds := a.step_proceeds works supported
  rw [stepped] at cleared proceeds
  refine ⟨cleared, ?_⟩
  rintro move rfl
  have moved : move.Supported d.world d.context.stack := proceeds
  exact moved.mono (fun _ => .inl) fun _ => .inl

theorem step_proper (works : a.Runs Callable.Proper c.world) (clear : c.context.stack.Clear)
    (backed : a.Backed c.world c.context.stack) (stepped : a.step c = (result, d)) : d.context.stack.Clear ∧
      ∀ move, result = .ok move →
        move.Satisfies (Backed d.world d.context.stack) (Frame.Backed d.world d.context.stack.capacity) := by
  by_cases host : ∃ f h, a.function? = some f ∧ c.world.callable f = .host h
  · obtain ⟨f, h, active, host⟩ := host
    exact host_proper active host (host ▸ works.allowed f active) clear backed stepped
  · have shipped : a.Runs Callable.Shipped c.world := by
      refine ⟨fun f active => ?_⟩
      have proper := works.allowed f active
      cases found : c.world.callable f with
      | host h => exact absurd ⟨f, h, active, found⟩ host
      | script p =>
        rw [found] at proper
        exact proper
      | builtin _ | «matches» _ | lines _ _ => trivial
    rcases backed with supported | ⟨f, w, saved, rfl, foreign⟩
    · exact supported_proper shipped clear supported stepped
    · rcases Callable.resume_foreign (shipped.allowed f rfl) foreign f w c c.context.stack.capacity with
        continues | ⟨e, refused⟩
      · exact supported_proper shipped clear continues stepped
      · rw [step_resume, refused] at stepped
        cases stepped
        exact ⟨clear, by simp⟩

end Activity

/-- Proper functions leave nothing from the cursor on, and only frames that go on from states of
their own kind. -/
def Invariant.proper : Invariant Callable.Proper where
  state := Clear
  activity := Activity.Backed
  frame := Frame.Backed
  waits := by
    rintro w v capacity frame retains (sound | foreign)
    · exact .inl (sound.of_retains retains)
    · exact .inr foreign
  returned := .inl trivial
  taken := by
    rintro w s ⟨f, base, state⟩ (sound | ⟨saved, rfl, foreign⟩)
    · exact .inl (Invariant.sound.taken sound)
    · exact .inr ⟨f, base, saved, rfl, foreign⟩
  stepped _ works clear backed stepped := Activity.step_proper works clear backed stepped

namespace Proto

variable {p : Proto} {w : Window} {s : RegisterStack}

/-- What is where after results are collected: those that are wanted are moved down by one slot,
and everything above them is nil. -/
theorem collectResults_get {a : Nat} (clear : s.Clear) (above : w.offset + a + 1 ≤ s.top) (nresults i : Nat) :
    w.get (collectResults s w a nresults) i =
      if i < a then w.get s i
      else if i < a + min (s.top - (w.offset + a + 1)) nresults then w.get s (i + 1)
      else if i = a ∧ nresults = 0 then w.get s a else .nil := by
  have empty (j : Nat) (high : s.top ≤ j) : s.get j = .nil := clear.empty j high
  simp only [collectResults, Window.get, Window.top, Window.shift]
  rw [get_clear, get_clear, get_move_down _ (by omega)]
  by_cases low : i < a
  · rw [if_neg (by omega), if_neg (by omega), if_neg (by omega), if_neg (by omega), if_pos low]
  · rw [if_neg (c := i < a) low]
    by_cases wanted : i < a + min (s.top - (w.offset + a + 1)) nresults
    · rw [if_neg (by omega), if_neg (by omega), if_pos (by omega), if_pos wanted]
      congr 1
      omega
    · rw [if_neg (c := i < _) wanted]
      by_cases kept : i = a ∧ nresults = 0
      · obtain ⟨rfl, rfl⟩ := kept
        rw [if_neg (by omega), if_neg (by omega), if_neg (by omega), if_neg (by omega), if_pos ⟨rfl, rfl⟩]
      · rw [if_neg (c := i = a ∧ _) kept]
        split
        · rfl
        · split
          · rfl
          · rw [if_neg (by omega)]
            split
            · rfl
            · exact empty _ (by omega)

/-- A script that returns leaves its results at the start of its window and nothing above. -/
theorem effect_ret {first count : Nat} (framed : p.Framed w s) (inside : first + count ≤ p.regs) :
    ∃ t, p.effect w s (some (.ret first count)) = (.ok .leave, t) ∧ t.top = w.offset + count ∧
      t.capacity = s.capacity ∧ (∀ i < count, w.get t i = w.get s (first + i)) ∧ ∀ j < w.offset, t.get j = s.get j := by
  have fits := framed.fits
  by_cases still : first = 0
  · subst still
    refine ⟨s.raised (w.offset + count), ?_, rfl, raised_capacity _ _, ?_, ?_⟩
    · have placed : w.offset + count ≤ s.capacity := by omega
      simp only [effect, ne_eq, not_true_eq_false, if_false, Window.setTop_of_fits placed]
      rfl
    · intro i low
      rw [Window.get, get_raised, if_neg (by omega), Nat.zero_add]
      rfl
    · intro j low
      rw [get_raised, if_neg (by omega)]
  · have capacity := (s.move_sameShape (w.offset + first) w.offset count).capacity
    refine ⟨(s.move (w.offset + first) w.offset count).raised (w.offset + count), ?_, rfl,
      (raised_capacity _ _).trans capacity, ?_, ?_⟩
    · have placed : w.offset + count ≤ (s.move (w.offset + first) w.offset count).capacity := by omega
      simp only [effect, ne_eq, still, not_false_eq_true, if_true, Window.setTop_of_fits placed]
      rfl
    · intro i low
      rw [Window.get, get_raised, if_neg (by omega), get_move_down _ (by omega), if_pos (by omega), Window.get]
      congr 1
      omega
    · intro j low
      rw [get_raised, if_neg (by omega), get_move_down _ (by omega), if_neg (by omega), if_neg (by omega)]

theorem enter_of_fits (enough : p.params ≤ p.regs) {c : Core} (fits : w.offset + p.regs ≤ c.context.stack.capacity) :
    (p.enter w c).1 = .ok () := by
  have dropped : w.setTop p.params c.context.stack = (.ok (), c.context.stack.raised (w.offset + p.params)) :=
    Window.setTop_of_fits (by omega)
  simp only [enter, Core.bind_apply, getStack_apply]
  split
  · rw [Core.bind_apply, onStack_apply, dropped]
    have placed : w.offset + p.regs ≤ (c.context.stack.raised (w.offset + p.params)).capacity := by
      rwa [raised_capacity]
    simp only [onStack_apply, withStack_stack, Window.setTop_of_fits placed]
  · rw [onStack_apply, Window.setTop_of_fits fits]

/-- A script that waited for a call goes on with the results that it asked for. -/
theorem resume_call {c : Core} {a nresults : Nat} (fits : w.offset + p.regs ≤ c.context.stack.capacity) :
    p.resume w (some (.call a nresults)) c =
      (.ok (), c.withStack ((collectResults c.context.stack w a nresults).raised (w.offset + p.regs))) := by
  have capacity := (collectResults_confined (Nat.zero_le _) (w := w) c.context.stack a nresults).capacity
  simp only [resume, finish, Core.bind_apply, modifyStack_apply, onStack_apply, withStack_stack]
  rw [Window.setTop_of_fits (by omega)]
  rfl

end Proto

namespace Machine

theorem Reaches.next_silent {m next last : Machine} {pauses : Nat} {calls : List Call} (moved : m.step = .inl next)
    (silent : m.call = []) (rest : Reaches next pauses calls last) : Reaches m pauses calls last := by
  have reaches := Reaches.next moved rest
  rwa [silent] at reaches

variable {m : Machine} {f g : FunctionId} {p q : Proto} {w : Window} {pc a nargs nresults : Nat}

/-- The arguments of a call are the registers above the one that names the callee. -/
theorem values_of_call (framed : p.Framed w m.core.context.stack) (inside : a + 1 + nargs ≤ p.regs) :
    (w.shift (a + 1)).values (m.core.context.stack.raised (w.offset + (a + 1) + nargs)) =
      (List.range nargs).map fun i => w.get m.core.context.stack (a + 1 + i) := by
  have fits := framed.fits
  have height : (m.core.context.stack.raised (w.offset + (a + 1) + nargs)).top = w.offset + (a + 1) + nargs := rfl
  apply List.ext_getElem?
  intro i
  rw [Window.values_getElem? (by rw [raised_capacity, height]; omega), Window.top, height, List.getElem?_map]
  by_cases given : i < nargs
  · rw [if_pos (by simp only [Window.shift]; omega), List.getElem?_range given, Window.get, get_raised,
      if_neg (by simp only [Window.shift]; omega), Window.shift, Nat.add_assoc]
    rfl
  · rw [if_neg (by simp only [Window.shift]; omega), List.getElem?_eq_none (by simpa using given)]
    rfl

/-- Where a script that has just been called by another one stands. -/
structure Entered (m : Machine) (g : FunctionId) (q : Proto) (w : Window) (a nargs : Nat) (frame : Frame)
    (entered : Machine) : Prop where
  activity : entered.activity = .running g (w.shift (a + 1)) 0
  frames : entered.frames = frame :: m.frames
  world : entered.core.world = m.core.world
  clear : entered.core.context.stack.Clear
  framed : q.Framed (w.shift (a + 1)) entered.core.context.stack
  intact : m.core.context.stack.Intact (w.offset + (a + 1)) entered.core.context.stack
  registers : ∀ i, (w.shift (a + 1)).get entered.core.context.stack i =
    if i < min nargs q.params then w.get m.core.context.stack (a + 1 + i) else .nil

/-- What the callee is entered with: the cursor is at the last argument. -/
private def calling (m : Machine) (w : Window) (a nargs : Nat) : Core :=
  m.core.withStack (m.core.context.stack.raised (w.offset + (a + 1) + nargs))

/-- The cursor is lowered to the last argument, the callee is found to be a function, and it is entered. -/
private theorem call_steps (running : m.activity = .running f w pc) (caller : m.core.world.callable f = .script p)
    (found : p.code[pc]? = some (.call a nargs nresults)) (callee : w.get m.core.context.stack a = .function g)
    (script : m.core.world.callable g = .script q)
    (placed : (w.shift (a + 1)).offset + nargs ≤ m.core.context.stack.capacity) {entered : Core}
    (opened : q.enter (w.shift (a + 1)) (m.calling w a nargs) = (.ok (), entered)) {final : Machine}
    (arrived : final = ⟨entered, .running g (w.shift (a + 1)) 0,
      ⟨f, w, some (.script (pc + 1) (some (.call a nresults)))⟩ :: m.callers, m.pending⟩) :
    m.Reaches 0 [⟨g, (w.shift (a + 1)).values (m.calling w a nargs).context.stack⟩] final ∧ m.driven 3 = final := by
  have plain (instr : Instr) (same : p.code[pc]? = some instr) : instr.isAccounting = false := by
    cases found.symm.trans same
    rfl
  let callers : List Frame := ⟨f, w, some (.script (pc + 1) (some (.call a nresults)))⟩ :: m.callers
  have first : m.step =
      .inl ⟨m.calling w a nargs, .dispatch (.value (.function g)) (w.shift (a + 1)), callers, m.pending⟩ := by
    rw [step_working running (by simp), Activity.step_running caller, Proto.step_plain _ plain, found]
    simp only [Proto.effect, Window.setTop_of_fits placed, callee]
    rfl
  have second : step ⟨m.calling w a nargs, .dispatch (.value (.function g)) (w.shift (a + 1)), callers, m.pending⟩ =
      .inl ⟨m.calling w a nargs, .enter g (w.shift (a + 1)), callers, m.pending⟩ := step_working rfl (by simp)
  have third : step ⟨m.calling w a nargs, .enter g (w.shift (a + 1)), callers, m.pending⟩ = .inl final := by
    rw [step_working rfl (by simp), Activity.step_enter, arrived]
    change after _ ((m.core.world.callable g).invoke g (w.shift (a + 1)) (m.calling w a nargs)) = _
    rw [script]
    simp only [Callable.invoke, Core.bind_apply, getStack_apply, opened]
    rfl
  refine ⟨?_, by rw [driven_inl first, driven_inl second, driven_inl third]; rfl⟩
  have silent : m.call = [] := by simp only [Machine.call, running]
  exact .next_silent first silent (.next_silent second rfl (.next third .here))

/-- The callee has its arguments in the registers of its parameters, and nil in the others. -/
private theorem entered_registers (enough : q.params ≤ q.regs) (clear : (m.calling w a nargs).context.stack.Clear)
    (framed : p.Framed w m.core.context.stack) (inside : a + 1 + nargs ≤ p.regs) {entered : Core}
    (opened : q.enter (w.shift (a + 1)) (m.calling w a nargs) = (.ok (), entered)) (i : Nat) :
    (w.shift (a + 1)).get entered.context.stack i =
      if i < min nargs q.params then w.get m.core.context.stack (a + 1 + i) else .nil := by
  have registers := Proto.enter_registers enough clear (congrArg Prod.fst opened) i
  rw [opened, calling, withStack_stack, values_of_call framed inside, List.getElem?_take, List.getElem?_map] at registers
  rw [registers]
  by_cases given : i < min nargs q.params
  · rw [if_pos given, if_pos (by omega), List.getElem?_range (by omega)]
    rfl
  · rw [if_neg given]
    by_cases few : i < q.params
    · rw [if_pos few, List.getElem?_eq_none (by rw [List.length_range]; omega)]
      rfl
    · rw [if_neg few]
      rfl

theorem call_enters (running : m.activity = .running f w pc) (caller : m.core.world.callable f = .script p)
    (verified : p.verified = .ok p) (found : p.code[pc]? = some (.call a nargs nresults))
    (callee : w.get m.core.context.stack a = .function g) (script : m.core.world.callable g = .script q)
    (enough : q.params ≤ q.regs) (clear : m.core.context.stack.Clear) (framed : p.Framed w m.core.context.stack)
    (room : w.offset + (a + 1) + q.regs ≤ m.core.context.stack.capacity) :
    m.Reaches 0 [⟨g, (List.range nargs).map fun i => w.get m.core.context.stack (a + 1 + i)⟩] (m.driven 3) ∧
      m.Entered g q w a nargs ⟨f, w, some (.script (pc + 1) (some (.call a nresults)))⟩ (m.driven 3) := by
  have fits := framed.fits
  have inside : a + 1 + nargs ≤ p.regs := Proto.registers_of_verified verified found (by simp [Instr.operands])
  have placed : (w.shift (a + 1)).offset + nargs ≤ m.core.context.stack.capacity := by
    simp only [Window.shift]
    omega
  obtain ⟨entered, opened⟩ : ∃ entered, q.enter (w.shift (a + 1)) (m.calling w a nargs) = (.ok (), entered) := by
    refine ⟨_, Prod.ext (Proto.enter_of_fits enough ?_) rfl⟩
    rw [calling, withStack_stack, raised_capacity]
    exact room
  obtain ⟨reaches, path⟩ := call_steps running caller found callee script placed opened rfl
  have lowered : m.core.context.stack.Orderly (w.offset + (a + 1)) (m.calling w a nargs).context.stack :=
    raised_orderly (Nat.le_add_right _ _) (by simpa [Window.shift] using placed)
  have called_clear := lowered.clear clear
  have orderly : (m.calling w a nargs).context.stack.Orderly (w.offset + (a + 1)) entered.context.stack := by
    have disciplined := Proto.enter_disciplined (w := w.shift (a + 1)) (Nat.le_refl _) q (m.calling w a nargs)
    rwa [opened] at disciplined
  have unchanged : entered.world = m.core.world := by
    have stays := congrArg (·.2.world) (q.enter_local (w.shift (a + 1)) (m.calling w a nargs) (m.calling w a nargs) rfl)
    rwa [opened] at stays
  have framed' := Proto.enter_framed (congrArg Prod.fst opened)
  rw [opened] at framed'
  rw [path]
  refine ⟨?_, rfl, rfl, unchanged, orderly.clear called_clear, framed', ?_, ?_⟩
  · rw [← values_of_call framed inside]
    exact reaches
  · have above : w.offset + (a + 1) ≤ m.core.context.stack.top := by
      rw [framed.top]
      omega
    exact ((Intact.refl above).confined lowered.toConfined).confined orderly.toConfined
  · exact entered_registers enough called_clear framed inside opened

/-- Where the caller of a script goes on once the script has returned. -/
structure Resumed (n : Machine) (f : FunctionId) (p : Proto) (w : Window) (pc a nresults first count : Nat)
    (rest : List Frame) (back : Machine) : Prop where
  activity : back.activity = .running f w pc
  frames : back.frames = rest
  top : back.core.context.stack.top = w.offset + p.regs
  registers : ∀ i, w.get back.core.context.stack i =
    if i < a then w.get n.core.context.stack i
    else if i < a + min count nresults then (w.shift (a + 1)).get n.core.context.stack (first + (i - a))
    else if i = a ∧ nresults = 0 then w.get n.core.context.stack a else .nil

/-- The registers of the caller once the results have been collected from those that were returned. -/
private theorem resumed_registers {s t : RegisterStack} {first count : Nat} (clear : t.Clear)
    (top : t.top = (w.shift (a + 1)).offset + count)
    (results : ∀ i < count, (w.shift (a + 1)).get t i = (w.shift (a + 1)).get s (first + i))
    (below : ∀ j < (w.shift (a + 1)).offset, t.get j = s.get j) (wanted : a + nresults ≤ p.regs) (named : a + 1 ≤ p.regs)
    (i : Nat) : w.get ((Proto.collectResults t w a nresults).raised (w.offset + p.regs)) i =
      if i < a then w.get s i
      else if i < a + min count nresults then (w.shift (a + 1)).get s (first + (i - a))
      else if i = a ∧ nresults = 0 then w.get s a else .nil := by
  have start : (w.shift (a + 1)).offset = w.offset + (a + 1) := rfl
  have produced : t.top - (w.offset + a + 1) = count := by omega
  have held (j : Nat) (low : j ≤ a) : w.get t j = w.get s j := below (w.offset + j) (by omega)
  have gets := Proto.collectResults_get clear (w := w) (a := a) (by omega) nresults i
  rw [produced] at gets
  rw [Window.get, get_raised]
  change (if _ then _ else w.get (Proto.collectResults t w a nresults) i) = _
  rw [gets]
  by_cases low : i < a
  · rw [if_neg (by omega), if_pos low, if_pos low, held i (by omega)]
  · rw [if_neg (c := i < a) low, if_neg (c := i < a) low]
    by_cases given : i < a + min count nresults
    · have place : w.get t (i + 1) = (w.shift (a + 1)).get t (i - a) := by
        simp only [Window.get, Window.shift]
        congr 1
        omega
      rw [if_neg (by omega), if_pos given, if_pos given, place, results _ (by omega)]
    · rw [if_neg (c := i < _) given, if_neg (c := i < _) given]
      by_cases kept : i = a ∧ nresults = 0
      · rw [if_neg (by omega), if_pos kept, if_pos kept, held a (Nat.le_refl a)]
      · rw [if_neg (c := i = a ∧ _) kept, if_neg (c := i = a ∧ _) kept, ite_self]

theorem ret_resumes {n : Machine} {pc' first count : Nat} {rest : List Frame}
    (running : n.activity = .running g (w.shift (a + 1)) pc')
    (waiting : n.frames = ⟨f, w, some (.script pc (some (.call a nresults)))⟩ :: rest)
    (caller : n.core.world.callable f = .script p) (wanted : a + nresults ≤ p.regs) (named : a + 1 ≤ p.regs)
    (callee : n.core.world.callable g = .script q) (verified : q.verified = .ok q)
    (found : q.code[pc']? = some (.ret first count)) (clear : n.core.context.stack.Clear)
    (framed : q.Framed (w.shift (a + 1)) n.core.context.stack)
    (room : w.offset + p.regs ≤ n.core.context.stack.capacity) :
    n.Reaches 0 [] (n.driven 3) ∧ n.Resumed f p w pc a nresults first count rest (n.driven 3) := by
  have inside : first + count ≤ q.regs := Proto.registers_of_verified verified found (by simp [Instr.operands])
  obtain ⟨t, done, top, capacity, results, below⟩ := Proto.effect_ret framed inside
  have cleared : t.Clear := by
    have kept : (q.effect (w.shift (a + 1)) n.core.context.stack q.code[pc']?).2.Clear :=
      Proto.effect_clear verified framed clear
    rwa [found, done] at kept
  have plain (instr : Instr) (same : q.code[pc']? = some instr) : instr.isAccounting = false := by
    cases found.symm.trans same
    rfl
  have left : n.step = .inl { n with core := n.core.withStack t, activity := .returned } := by
    rw [step_working running (by simp), Activity.step_running callee, Proto.step_plain _ plain, found, done]
    rfl
  obtain ⟨callers, pending, split, taken⟩ := step_returned
    (m := { n with core := n.core.withStack t, activity := .returned }) rfl waiting
    (.inr (by rw [withStack_world, caller]; rfl))
  have fits : w.offset + p.regs ≤ (n.core.withStack t).context.stack.capacity := by
    rw [withStack_stack, capacity]
    exact room
  let collected : RegisterStack := (Proto.collectResults t w a nresults).raised (w.offset + p.regs)
  have resumed : Machine.step ⟨n.core.withStack t, .resume f w (.script pc (some (.call a nresults))), callers, pending⟩ =
      .inl ⟨n.core.withStack collected, .running f w pc, callers, pending⟩ := by
    rw [step_working rfl (by simp), Activity.step_resume, withStack_world, caller]
    simp only [Callable.resume, Core.bind_apply, getStack_apply, Proto.resume_call fits]
    rfl
  have path : n.driven 3 = ⟨n.core.withStack collected, .running f w pc, callers, pending⟩ := by
    rw [driven_inl left, driven_inl taken]
    exact driven_inl resumed 0
  rw [path]
  refine ⟨?_, rfl, split, rfl, resumed_registers cleared top results below wanted named⟩
  have silent : n.call = [] := by simp only [Machine.call, running]
  exact .next_silent left silent (.next_silent taken rfl (.next_silent resumed rfl .here))

end Machine

namespace Machine

variable {m n : Machine} {f : FunctionId} {p : Proto} {w : Window} {pc : Nat} {base : List Frame}

theorem Holds.framed (holds : m.Holds .proper base) (running : m.activity = .running f w pc)
    (script : m.core.world.callable f = .script p) : p.Framed w m.core.context.stack := by
  have backed := holds.activity
  rw [running] at backed
  rcases backed with ⟨q, found, framed⟩ | ⟨_, _, _, other, _⟩
  · cases script.symm.trans found
    exact framed
  · cases other

theorem During.script (during : During Callable.Proper base m n) (script : m.core.world.callable f = .script p) :
    n.core.world.callable f = .script p :=
  (during.sustains.retains f (by rw [script]; rfl)).trans script

end Machine

namespace Executor

theorem idle_of_pushCall {e pending : Executor} {f : FunctionId} {args : List Value}
    (pushed : e.pushCall f args = (.ok (), pending)) : e.callStack = [] := by
  by_contra busy
  have occupied : e.callStack.isEmpty = false := by simpa using busy
  simp [pushCall, occupied] at pushed

/-- A call begins with clear registers if the executor has them. -/
theorem proper_of_pushCall {e pending : Executor} {f : FunctionId} {args : List Value} (clear : e.context.stack.Clear)
    (pushed : e.pushCall f args = (.ok (), pending)) (w : World) : (pending.machine w).Holds .proper [] := by
  have sound : (e.pushCall f args).2.Sound w := (Sound.of_idle clear (idle_of_pushCall pushed)).pushCall f args
  rw [pushed] at sound
  refine ⟨sound.clear, .inl trivial, pending.callStack, (List.append_nil _).symm, ?_⟩
  intro frame member
  exact .inl (sound.frames frame member)

/-- Calls between scripts. Wherever a call of an executor comes to in its drains, a script that
calls another one reaches it, with its arguments in the registers of the parameters and nil in the
others; and once that one returns, whatever it called and however often it was suspended, the
caller goes on with the results it asked for, nil for those that are missing and above them, and
its other registers as they were. -/
theorem calling_convention {u : World} {e pending : Executor} {h : FunctionId} {args : List Value}
    (clear : e.context.stack.Clear) (pushed : e.pushCall h args = (.ok (), pending)) {m : Machine}
    (reached : Machine.During Callable.Proper [] (pending.machine u) m) {f g : FunctionId} {p q : Proto} {w : Window}
    {pc a nargs nresults : Nat} (running : m.activity = .running f w pc) (caller : m.core.world.callable f = .script p)
    (verified : p.verified = .ok p) (found : p.code[pc]? = some (.call a nargs nresults))
    (named : w.get m.core.context.stack a = .function g) (callee : m.core.world.callable g = .script q)
    (verified' : q.verified = .ok q) (room : w.offset + (a + 1) + q.regs ≤ m.core.context.stack.capacity) :
    m.Reaches 0 [⟨g, (List.range nargs).map fun i => w.get m.core.context.stack (a + 1 + i)⟩] (m.driven 3) ∧
    (m.driven 3).activity = .running g (w.shift (a + 1)) 0 ∧
    (∀ i, (w.shift (a + 1)).get (m.driven 3).core.context.stack i =
      if i < min nargs q.params then w.get m.core.context.stack (a + 1 + i) else .nil) ∧
    ∀ n pc' first count, Machine.During Callable.Proper (m.driven 3).frames (m.driven 3) n →
      n.activity = .running g (w.shift (a + 1)) pc' → n.frames = (m.driven 3).frames →
      q.code[pc']? = some (.ret first count) →
      n.Reaches 0 [] (n.driven 3) ∧ (n.driven 3).activity = .running f w (pc + 1) ∧ (n.driven 3).frames = m.frames ∧
      (∀ i < a, w.get (n.driven 3).core.context.stack i = w.get m.core.context.stack i) ∧
      (∀ i < min count nresults, w.get (n.driven 3).core.context.stack (a + i) =
        (w.shift (a + 1)).get n.core.context.stack (first + i)) ∧
      (∀ i, count ≤ i → i < nresults → w.get (n.driven 3).core.context.stack (a + i) = .nil) ∧
      (nresults = 0 → w.get (n.driven 3).core.context.stack a = w.get m.core.context.stack a) ∧
      (∀ i, a + max nresults 1 ≤ i → w.get (n.driven 3).core.context.stack i = .nil) ∧
      (n.driven 3).core.context.stack.top = w.offset + p.regs := by
  have holds := reached.holds (proper_of_pushCall clear pushed u)
  have framed := holds.framed running caller
  have named_inside : a + 1 ≤ p.regs := Proto.registers_of_verified verified found (by simp [Instr.operands])
  have wanted : a + nresults ≤ p.regs := Proto.registers_of_verified verified found (by simp [Instr.operands])
  obtain ⟨reaches, entered⟩ := Machine.call_enters running caller verified found named callee
    (Proto.params_of_verified verified') holds.state framed room
  refine ⟨reaches, entered.activity, entered.registers, ?_⟩
  intro n pc' first count during running' frames found'
  have callee' := during.script (entered.world ▸ callee)
  have caller' := during.script (entered.world ▸ caller)
  have start : (m.driven 3).Holds .proper (m.driven 3).frames := by
    refine ⟨entered.clear, .inl ?_, [], rfl, by simp⟩
    rw [entered.activity]
    exact ⟨q, entered.world ▸ callee, entered.framed⟩
  have within := during.holds start
  have inside : (m.driven 3).activity.Above (w.offset + (a + 1)) := by
    rw [entered.activity]
    rintro _ ⟨⟩
    exact Nat.le_refl _
  have intact := (during.intact inside entered.intact.top).state
  have capacity : n.core.context.stack.capacity = m.core.context.stack.capacity :=
    intact.capacity.trans entered.intact.capacity
  have held (i : Nat) (low : i ≤ a) : w.get n.core.context.stack i = w.get m.core.context.stack i := by
    have inside : w.offset + i < w.offset + (a + 1) := by omega
    exact (intact.below _ inside).trans (entered.intact.below _ inside)
  obtain ⟨back, resumed⟩ := Machine.ret_resumes running' (frames.trans entered.frames) caller' wanted named_inside
    callee' verified' found' within.state (within.framed running' callee') (capacity ▸ framed.fits)
  refine ⟨back, resumed.activity, resumed.frames, ?_, ?_, ?_, ?_, ?_, resumed.top⟩
  · intro i low
    rw [resumed.registers, if_pos low, held i (Nat.le_of_lt low)]
  · intro i given
    rw [resumed.registers, if_neg (by omega), if_pos (by omega), Nat.add_sub_cancel_left]
  · intro i missing wanting
    rw [resumed.registers, if_neg (by omega), if_neg (by omega), if_neg (by omega)]
  · intro none
    rw [resumed.registers, if_neg (by omega), if_neg (by omega), if_pos ⟨rfl, none⟩, held a (Nat.le_refl a)]
  · intro i higher
    rw [resumed.registers, if_neg (by omega), if_neg (by omega), if_neg (by omega)]

private def ordering : Proto where
  name := "ordering"
  params := 1
  regs := 4
  constants := [.function ⟨1⟩, .int 7]
  code := [.loadConst 1 0, .loadConst 2 1, .call 1 1 3, .ret 0 4]

private def delivering : Proto where
  name := "delivering"
  params := 1
  regs := 3
  constants := [.function ⟨2⟩]
  code := [.loadConst 1 0, .call 1 0 0, .move 2 0, .ret 1 2]

private def orderingWorld : World where
  functions := #[.script ordering, .script delivering, .builtin .pause]

private def orderless : Executor where
  context := { stack := ⟨#[.nil, .nil, .nil, .nil, .nil, .nil], 0⟩, budget := Budget.new {} }

private def orderingCall : Executor := (orderless.pushCall ⟨0⟩ [.bool true]).2

private def ordered : Machine := (orderingCall.machine orderingWorld).driven 4

private theorem proper_of_shipped (c : Callable) (shipped : c.Shipped) : c.Proper := by
  cases c with
  | host h => cases shipped
  | script p => exact shipped
  | builtin _ | «matches» _ | lines _ _ => trivial

/-- The callee is about to return, after a suspension. -/
private def delivered : Machine := (ordered.driven 3).driven 9

/-- The callee pauses before it returns two of the three results that are asked for, from registers
that overlap those they go to. -/
theorem calling_convention_ordered : (⟨0⟩ : Window).get (delivered.driven 3).core.context.stack 0 = .bool true ∧
    (⟨0⟩ : Window).get (delivered.driven 3).core.context.stack 1 = .function ⟨2⟩ ∧
    (⟨0⟩ : Window).get (delivered.driven 3).core.context.stack 2 = .int 7 ∧
    (⟨0⟩ : Window).get (delivered.driven 3).core.context.stack 3 = .nil := by
  have shipped : orderingWorld.Shipped := by decide
  have made : Executor.new { stackCapacity := 6 } = .ok orderless := rfl
  have clear : orderless.context.stack.Clear := (Sound.new (w := orderingWorld) made).clear
  have pushed : orderless.pushCall ⟨0⟩ [.bool true] = (.ok (), orderingCall) := rfl
  have reached := (Machine.During.driven (m := orderingCall.machine orderingWorld) shipped .here 4).1.mono proper_of_shipped
  have steps : ∀ k < 9, ((ordered.driven 3).driven k).activity.window? = none →
      ((ordered.driven 3).driven k).frames.length ≠ (ordered.driven 3).frames.length := by decide +kernel
  have ongoing (k : Nat) (less : k < 9) (returned : ((ordered.driven 3).driven k).activity = .returned)
      (same : ((ordered.driven 3).driven k).frames = (ordered.driven 3).frames) : (ordered.driven 3).frames = [] :=
    absurd (congrArg List.length same) (steps k less (by rw [returned]; rfl))
  have entered : (ordered.driven 3).core.world.Shipped :=
    (Machine.During.driven_within (m := orderingCall.machine orderingWorld) shipped .here 7 fun _ _ _ _ => rfl).2
  have within := (Machine.During.driven_within entered .here 9 ongoing).1.mono proper_of_shipped
  have running : ordered.activity = .running ⟨0⟩ ⟨0⟩ 2 := by cbv
  have caller : ordered.core.world.callable ⟨0⟩ = .script ordering :=
    World.proto?_eq_some.mp (by decide +kernel)
  have found : ordering.code[2]? = some (.call 1 1 3) := rfl
  have named : (⟨0⟩ : Window).get ordered.core.context.stack 1 = .function ⟨1⟩ := by decide +kernel
  have callee : ordered.core.world.callable ⟨1⟩ = .script delivering :=
    World.proto?_eq_some.mp (by decide +kernel)
  have returning : delivering.code[3]? = some (.ret 1 2) := rfl
  have finishing : delivered.activity = .running ⟨1⟩ ⟨2⟩ 3 := by cbv
  have back : delivered.frames = (ordered.driven 3).frames := by cbv
  obtain ⟨-, -, -, returns⟩ :=
    calling_convention clear pushed reached running caller (by decide) found named callee (by decide) (by decide +kernel)
  obtain ⟨-, -, -, below, results, missing, -⟩ := returns delivered 3 1 2 within finishing back returning
  refine ⟨(below 0 (by decide)).trans ?_, (results 0 (by decide)).trans ?_, (results 1 (by decide)).trans ?_,
    missing 2 (by decide) (by decide)⟩
  · decide +kernel
  · decide +kernel
  · decide +kernel

end Executor

end CoopScript
