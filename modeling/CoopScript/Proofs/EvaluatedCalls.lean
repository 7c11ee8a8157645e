import CoopScript.Proofs.EvaluationRules
import CoopScript.Proofs.WindowCalls

/-! Resuming a frame is the same as returning to it. What each function does when a call of its own
has come back with results is what the machine does when it resumes the frame that waited for them:
scripts, substitutions and formattings go on with their loops, a text is checked, a host function
replies again, and what only handed a call on returns. -/

namespace CoopScript

/-- The first value of a window, where results are taken from. -/
theorem Window.headD_values (w : Window) (s : RegisterStack) : (w.values s).headD .nil = w.arg s 0 := by
  simp only [values, arg, get, RegisterStack.slice, RegisterStack.get, Nat.add_zero, List.headD_eq_head?_getD,
    List.head?_eq_getElem?, Array.getElem?_toList, Array.getElem?_extract, Array.getD_eq_getD_getElem?]
  by_cases inside : w.offset < s.slots.size
  · have held : 0 < min (w.offset + w.top s) s.slots.size - w.offset ↔ 0 < w.top s := by omega
    simp only [held]
    split <;> rfl
  · simp [Array.getElem?_eq_none (Nat.le_of_not_lt inside)]

namespace World

theorem inside_of_callable {w : World} {f : FunctionId} (present : w.callable f ≠ .builtin .error) :
    f.index < w.functions.size := by
  by_contra beyond
  exact present (callable_of_absent (by simpa using beyond))

/-- A function that calls others is the same when they have returned. -/
theorem Precedes.callable_of_callable {w v : World} {f : FunctionId} {c : Callable} (precedes : w.Precedes v)
    (found : w.callable f = c) (present : c ≠ .builtin .error) (fixed : ∀ cursor, c ≠ .matches cursor) :
    v.callable f = c :=
  (precedes.kept f (inside_of_callable (found ▸ present)) (by rwa [found])).trans found

end World

namespace Proto

/-- An instruction that neither calls anything nor looks at the budget leaves the script running, or ends it. -/
theorem step_own {p : Proto} {f : FunctionId} {w : Window} {pc : Nat} {c d : Core} {move : Move}
    (quiet : p.code[pc]?.bind Instr.pending? = none) (unticked : p.code[pc]? ≠ some .tick)
    (stepped : p.step f w pc c = (.ok move, d)) : move = .go .returned ∨ ∃ next, move = .go (.running f w next) := by
  rcases p.place_cases pc with plain | ⟨cost, found⟩ | found
  · rw [step_plain c plain] at stepped
    have moved : (p.effect w c.context.stack p.code[pc]?).1.map (Effect.move f w pc) = .ok move := congrArg Prod.fst stepped
    cases effected : (p.effect w c.context.stack p.code[pc]?).1 with
    | error e =>
      rw [effected] at moved
      cases moved
    | ok effect =>
      rw [effected] at moved
      cases moved
      cases effect with
      | advance => exact .inr ⟨_, rfl⟩
      | jump target => exact .inr ⟨_, rfl⟩
      | await pending r callee => cases quiet.symm.trans (effect_await effected).1
      | leave => exact .inl rfl
  · rw [step_charge c found] at stepped
    cases stepped
    exact .inr ⟨_, rfl⟩
  · exact absurd found unticked

end Proto

/-- How a function other than a script moves, with the states that it can wait in. -/
inductive Move.Answers (f : FunctionId) (w : Window) (waiting : Saved → Prop) : Move → Prop where
  | returned : Answers f w waiting (.go .returned)
  | suspended (reason : SuspendReason) (frame : Frame) : Answers f w waiting (.suspend reason frame)
  | waits {s : Saved} (allowed : waiting s) (r : Request) (inner : Window) : Answers f w waiting (.call ⟨f, w, some s⟩ r inner)

namespace Move

variable {f : FunctionId} {w : Window} {move : Move} {c d : Core}

theorem Answers.mono {waiting more : Saved → Prop} (answers : move.Answers f w waiting) (weaker : ∀ s, waiting s → more s) :
    move.Answers f w more := by
  cases answers with
  | returned => exact .returned
  | suspended reason frame => exact .suspended reason frame
  | waits allowed r inner => exact .waits (weaker _ allowed) r inner

theorem answers_of_perform {a : Action} (performed : a.perform f w c = (.ok move, d)) :
    move.Answers f w fun s => a.state? = some s := by
  have comes := a.perform_performed f w c
  rw [performed] at comes
  cases comes with
  | returned => exact .returned
  | suspended _ _ reason => exact .suspended reason _
  | waits _ saves r inner => exact .waits saves r inner

theorem answers_of_performed {outcome : Except Failure Action × World} (performed : c.performed f w outcome = (.ok move, d)) :
    move.Answers f w fun _ => True := by
  obtain ⟨_ | a, v⟩ := outcome
  · cases performed
  · exact (answers_of_perform performed).mono fun _ _ => trivial

/-- A function that ends or is suspended waits for nothing. -/
theorem answers_of_ended {a : Action} {waiting : Saved → Prop} (ended : a.Immediate ∨ ∃ reason s, a = .suspend reason s)
    (performed : a.perform f w c = (.ok move, d)) : move.Answers f w waiting := by
  have answers := answers_of_perform performed
  rcases ended with (rfl | ⟨results, rfl⟩) | ⟨reason, s, rfl⟩
  · exact answers.mono (by rintro s ⟨⟩)
  · exact answers.mono (by rintro s ⟨⟩)
  · cases performed
    exact .suspended _ _

theorem answers_of_yields {op : WorldM Action} {waiting : Saved → Prop} (yields : Builtin.Yields op)
    (performed : c.performed f w (op c.world) = (.ok move, d)) : move.Answers f w waiting := by
  have given := yields c.world
  generalize op c.world = outcome at performed given
  obtain ⟨_ | a, v⟩ := outcome
  · cases performed
  · exact answers_of_ended (given a rfl) performed

end Move

theorem Activity.precedes_of_step {a : Activity} {c d : Core} {result : Except Failure Move} (stepped : a.step c = (result, d)) :
    c.world.Precedes d.world := by
  have precedes := a.step_precedes c
  rwa [stepped] at precedes

/-- What only hands a call on keeps nothing for itself. -/
theorem Builtin.unit_of_expects (b : Builtin) {s : Saved} (own : b.reach = 1) (expected : b.expects s = true) :
    s = .unit := by
  cases b <;> cases own <;> cases s <;> first | rfl | cases expected

namespace Callable

variable {called : Callable} {f : FunctionId} {w : Window} {move : Move} {c d : Core}

/-- The function calls another one at most once, and then it has nothing left to do. -/
def Single : Callable → Prop
  | .script _ | .host _ => False
  | .builtin b => b.reach ≤ 1
  | .matches _ | .lines _ _ => True

/-- The function waits in this state for the call that it makes in its place. -/
def Forwards (c : Callable) (s : Saved) : Prop := ∃ b, c = .builtin b ∧ s = .unit ∧ b.reach = 1

theorem forwards_of_comes {b : Builtin} {a : Action} {v : World} (single : b.reach ≤ 1) (comes : b.Comes v a)
    (suits : a.Suits b.expects) (performed : a.perform f w c = (.ok move, d)) :
    move.Answers f w (builtin b).Forwards := by
  cases comes with
  | ended immediate => exact Move.answers_of_ended (.inl immediate) performed
  | suspended own reason s => exact Move.answers_of_ended (.inr ⟨reason, s, rfl⟩) performed
  | call own | index own =>
    subst own
    exact absurd single (by decide)
  | text own => rcases own with rfl | rfl <;> exact absurd single (by decide)
  | forward own =>
    refine (Move.answers_of_perform performed).mono fun s saves => ⟨b, rfl, ?_, own⟩
    rcases suits with (impossible | ⟨_, impossible⟩) | ⟨s', saves', expected⟩
    · cases impossible
    · cases impossible
    · cases saves.symm.trans saves'
      exact b.unit_of_expects own expected

theorem forwards_of_ensures {b : Builtin} {op : WorldM Action} (single : b.reach ≤ 1)
    (ensures : World.Ensures (Action.Suits b.expects) op) (comes : ∀ a, (op c.world).1 = .ok a → b.Comes c.world a)
    (performed : c.performed f w (op c.world) = (.ok move, d)) : move.Answers f w (builtin b).Forwards := by
  have outcome := ensures c.world
  generalize op c.world = answer at performed outcome comes
  cases outcome with
  | answer grown suits => exact forwards_of_comes single (comes _ rfl) suits performed
  | failure => cases performed

theorem invoke_answers (single : called.Single) (invoked : called.invoke f w c = (.ok move, d)) :
    move.Answers f w called.Forwards := by
  cases called with
  | script p | host h => cases single
  | builtin b =>
    rw [invoke_builtin] at invoked
    exact forwards_of_ensures single (World.invoke_ensures b _) (fun a => Builtin.invoke_comes) invoked
  | «matches» cursor =>
    have returned : (Action.ret cursor.advance.1).perform f w
        { c with world := c.world.setCallable f (.matches cursor.advance.2) } = (.ok move, d) := invoked
    exact Move.answers_of_ended (.inl (.inr ⟨_, rfl⟩)) returned
  | lines file formats =>
    rw [invoke_lines] at invoked
    exact Move.answers_of_yields (.nextItems _ _) invoked

theorem resume_answers {s : Saved} (other : ∀ h, called ≠ .host h) (single : called.expects s = true → called.Single)
    (resumed : called.resume f w s c = (.ok move, d)) : move.Answers f w called.Forwards := by
  cases called with
  | host h => exact absurd rfl (other h)
  | script p =>
    cases s with
    | script pc pending => exact (single rfl).elim
    | _ => cases resumed
  | builtin b =>
    rw [resume_builtin] at resumed
    by_cases expected : b.expects s = true
    · exact forwards_of_ensures (single expected) (World.resume_ensures expected _)
        (fun a => Builtin.resume_comes expected) resumed
    · rw [Builtin.resume_unexpected (eq_false_of_ne_true expected)] at resumed
      cases resumed
  | «matches» cursor => cases resumed
  | lines file formats =>
    cases s with
    | reading r =>
      rw [resume_lines] at resumed
      exact Move.answers_of_yields (.readItems _ _ _ _) resumed
    | _ => cases resumed

end Callable

namespace Evaluation

open CoopScript.Core Machine

variable {n : Nat} {call : FunctionId → Window → EvalM Unwind Unit} {f : FunctionId} {w : Window}

section Scripts

variable {p : Proto} {m : Machine} {pc fuel : Nat}

/-- A script takes what it waited for and runs on. -/
theorem script_resumes {pending : Option Pending} {next : EvalM Unwind Unit}
    (rest : ∀ m : Machine, m.activity = .running f w pc → m.core.world.callable f = .script p →
      m.Realizes n (handed next m.core))
    (active : m.activity = .resume f w (.script pc pending)) (found : m.core.world.callable f = .script p) :
    m.Realizes (n + 1) (handed (own (p.resume w pending) >>= fun _ => next) m.core) := by
  have working : m.activity ≠ .returned := by simp [active]
  have stepped : m.activity.step m.core =
      (p.resume w pending >>= fun _ => pure (Move.go (.running f w pc))) m.core := by
    rw [active, Activity.step_resume, found]
    rfl
  refine .own working stepped fun _ d resumed running => .goes working running (rest _ rfl ?_)
  have same := (p.resume_local w pending).world m.core
  rw [resumed] at same
  exact (congrArg (World.callable · f) same).trans found

theorem script_own (quiet : p.code[pc]?.bind Instr.pending? = none) (unticked : p.code[pc]? ≠ some .tick) :
    script call f w p (fuel + 1) pc = (own (p.step f w pc) >>= fun move =>
      match move with
      | .go (.running _ _ next) => script call f w p fuel next
      | _ => pure ()) := by
  rw [script]
  split
  · next found =>
    rw [found] at quiet
    cases quiet
  · next found =>
    rw [found] at quiet
    cases quiet
  · next found => exact absurd found unticked
  · rfl

section Instructions

/-! One instruction at a time, given what is known of the rest of the script. -/

variable (serves : Serves fuel call) (active : m.activity = .running f w pc) (found : m.core.world.callable f = .script p)
  (runs : ∀ (m : Machine) (pc : Nat), m.activity = .running f w pc → m.core.world.callable f = .script p →
    m.Realizes fuel (handed (script call f w p fuel pc) m.core))

include found in
theorem script_kept {result : Except Failure Move} {c : Core} (moved : m.activity.step m.core = (result, c)) :
    c.world.callable f = .script p :=
  (Activity.precedes_of_step moved).callable_of_callable found (by simp) (by simp)

include found runs in
/-- What stands after a call is what the frame of the script goes on with. -/
theorem script_awaits {result : Except Failure Move} {c : Core} (moved : m.activity.step m.core = (result, c))
    (pending : Pending) (d : Core) (precedes : c.world.Precedes d.world) :
    ({ m with core := d, activity := .resume f w (.script (pc + 1) (some pending)) } : Machine).Realizes fuel
      (handed (own (p.resume w (some pending)) >>= fun _ => script call f w p fuel (pc + 1)) d) :=
  (script_resumes (fun m => runs m (pc + 1)) rfl
    (precedes.callable_of_callable (script_kept found moved) (by simp) (by simp))).mono fuel.le_succ

include active found runs in
theorem script_plain (quiet : p.code[pc]?.bind Instr.pending? = none) (unticked : p.code[pc]? ≠ some .tick) :
    m.Realizes (fuel + 1) (handed (script call f w p (fuel + 1) pc) m.core) := by
  have working : m.activity ≠ .returned := by simp [active]
  have stepped : m.activity.step m.core = p.step f w pc m.core := by
    rw [active, Activity.step_running found]
  rw [script_own quiet unticked]
  refine .own_move working stepped fun move d moved => ?_
  rcases Proto.step_own quiet unticked (stepped.symm.trans moved) with rfl | ⟨next, rfl⟩
  · exact .done working moved
  · exact .goes working moved (runs _ _ rfl (script_kept found moved))

include serves active found runs in
theorem script_getField {dst table key : Nat} (instr : p.code[pc]? = some (.getField dst table key)) :
    m.Realizes (fuel + 1) (handed (script call f w p (fuel + 1) pc) m.core) := by
  have working : m.activity ≠ .returned := by simp [active]
  have stepped : m.activity.step m.core = (getStack >>= fun s => pure (Move.call
      ⟨f, w, some (.script (pc + 1) (some (.index dst)))⟩ (.index (w.get s table) (p.constant key)) (p.scratch w)))
      m.core := by
    rw [active, Activity.step_running found]
    simp only [Proto.step, instr]
  rw [script]
  simp only [instr]
  refine .own working stepped ?_
  rintro _ _ ⟨⟩ asked
  exact .calls working asked (index_realizes serves rfl) (script_awaits found runs asked _)

include serves active found runs in
theorem script_call {base nargs nresults : Nat} (instr : p.code[pc]? = some (.call base nargs nresults)) :
    m.Realizes (fuel + 1) (handed (script call f w p (fuel + 1) pc) m.core) := by
  have working : m.activity ≠ .returned := by simp [active]
  have stepped : m.activity.step m.core =
      (getStack >>= fun s => onStack ((w.shift (base + 1)).setTop nargs) >>= fun _ =>
        pure (Move.call ⟨f, w, some (.script (pc + 1) (some (.call base nresults)))⟩ (.value (w.get s base))
          (w.shift (base + 1)))) m.core := by
    rw [active, Activity.step_running found]
    simp only [Proto.step, instr]
  rw [script]
  simp only [instr]
  refine .own working stepped ?_
  rintro _ _ ⟨⟩ placing
  refine .own working placing fun _ _ _ asked => ?_
  exact .calls working asked (value_realizes serves rfl) (script_awaits found runs asked _)

include active found runs in
theorem script_tick (instr : p.code[pc]? = some .tick) :
    m.Realizes (fuel + 1) (handed (script call f w p (fuel + 1) pc) m.core) := by
  have working : m.activity ≠ .returned := by simp [active]
  have stepped : m.activity.step m.core = (tick >>= fun spent =>
      if spent = true then pure (Move.suspend .preempted ⟨f, w, some (.script (pc + 1) none)⟩)
      else pure (.go (.running f w (pc + 1)))) m.core := by
    rw [active, Activity.step_running found]
    simp only [Proto.step, instr]
    rfl
  rw [script]
  simp only [instr]
  refine .own working stepped fun spent c ticked moved => ?_
  cases spent with
  | true => exact .suspends working moved
  | false => exact .goes working moved (runs _ _ rfl (script_kept found moved))

end Instructions

theorem script_realizes (serves : Serves n call) (enough : fuel ≤ n + 1) (active : m.activity = .running f w pc)
    (found : m.core.world.callable f = .script p) : m.Realizes fuel (handed (script call f w p fuel pc) m.core) := by
  induction fuel generalizing m pc with
  | zero => rfl
  | succ fuel ih =>
    have serves := serves.mono (Nat.le_of_succ_le_succ enough)
    have runs (m : Machine) (pc : Nat) (active : m.activity = .running f w pc)
        (found : m.core.world.callable f = .script p) : m.Realizes fuel (handed (script call f w p fuel pc) m.core) :=
      ih (by omega) active found
    cases instr : p.code[pc]? with
    | none => exact script_plain active found runs (by rw [instr]; rfl) (by simp [instr])
    | some i =>
      cases i with
      | getField dst table key => exact script_getField serves active found runs instr
      | call base nargs nresults => exact script_call serves active found runs instr
      | tick => exact script_tick active found runs instr
      | _ => exact script_plain active found runs (by rw [instr]; rfl) (by simp [instr])

end Scripts

theorem raised_ok {α : Type} {result : Except ScriptError α} {a : α} {c d : Core}
    (ok : Proto.raised result c = (.ok a, d)) : result = .ok a ∧ d = c := by
  cases result with
  | error e => cases ok
  | ok _ =>
    cases ok
    exact ⟨rfl, rfl⟩

theorem performed_raising {α : Type} (result : Except ScriptError α) (next : α → WorldM Action) (c : Core) :
    c.performed f w ((raising result >>= next) c.world) =
      (Proto.raised result >>= fun a c => c.performed f w (next a c.world)) c := by
  cases result <;> rfl

section Substitutions

variable {m : Machine} {s : Substitution}

/-- A substitution that was told takes the replacement and goes on with its loop. -/
theorem substitute_resumes {next : Substitution → EvalM Unwind Unit}
    (rest : ∀ s, m.activity.step m.core = (Builtin.substituteOn s).perform f w m.core →
      m.Realizes n (handed (next s) m.core))
    (active : m.activity = .resume f w (.substitution s)) (found : m.core.world.callable f = .builtin .gsub) :
    m.Realizes n (handed (own (replaced s w) >>= next) m.core) := by
  have stepped : m.activity.step m.core =
      (replaced s w >>= fun s => (Builtin.substituteOn s).perform f w) m.core := by
    rw [active, Activity.step_resume, found, Callable.resume_builtin, Builtin.resume, Window.headD_values, replaced]
    simp only [Core.bind_apply, getStack_apply]
    cases s.collect (w.arg m.core.context.stack 0) <;> rfl
  refine .own (by simp [active]) stepped fun s c told replying => ?_
  obtain ⟨-, rfl⟩ := raised_ok told
  exact rest s replying

theorem substitute_realizes (serves : Serves n call) {fuel : Nat} (enough : fuel ≤ n + 1) {c : Core}
    (working : m.activity ≠ .returned) (replying : m.activity.step m.core = (Builtin.substituteOn s).perform f w c)
    (found : c.world.callable f = .builtin .gsub) : m.Realizes fuel (handed (substitute call f w fuel s) c) := by
  induction fuel generalizing m s c with
  | zero => rfl
  | succ fuel ih =>
    have serves := serves.mono (Nat.le_of_succ_le_succ enough)
    have after {s : Substitution} {c : Core} (same : c.world.callable f = .builtin .gsub) (d : Core)
        (precedes : c.world.Precedes d.world) :
        ({ m with core := d, activity := .resume f w (.substitution s) } : Machine).Realizes fuel
          (handed (own (replaced s w) >>= substitute call f w fuel) d) := by
      have kept : d.world.callable f = .builtin .gsub := precedes.callable_of_callable same (by simp) (by simp)
      exact substitute_resumes (fun _ replying => ih (by omega) (by simp) replying kept) rfl kept
    rw [substitute]
    rw [Builtin.substituteOn] at replying
    cases advanced : s.advance with
    | finished results =>
      simp only [advanced] at replying ⊢
      exact .own_last working replying
    | lookup table key s =>
      simp only [advanced] at replying ⊢
      exact .calls working replying (index_realizes serves rfl) (after found)
    | call function captures s =>
      simp only [advanced] at replying ⊢
      rw [Action.perform_call] at replying
      refine .own working replying fun _ d placed asked => .calls working asked (value_realizes serves rfl) (after ?_)
      rwa [show d.world = c.world from congrArg (fun result => result.2.world) placed.symm]

end Substitutions

section Texts

variable {m : Machine} {s : Formatting}

/-- A formatting that was told takes the text and goes on with its loop. -/
theorem format_resumes {next : Formatting → EvalM Unwind Unit}
    (rest : ∀ s, m.activity.step m.core = m.core.performed f w (Builtin.formatOn s m.core.world) →
      m.Realizes n (handed (next s) m.core))
    (active : m.activity = .resume f w (.formatting s)) (found : m.core.world.callable f = .builtin .format) :
    m.Realizes n (handed (own (written s w) >>= next) m.core) := by
  have stepped : m.activity.step m.core =
      (written s w >>= fun s c => c.performed f w (Builtin.formatOn s c.world)) m.core := by
    rw [active, Activity.step_resume, found, Callable.resume_builtin, Builtin.resume, Window.headD_values, written]
    simp only [Core.bind_apply, getStack_apply]
    cases s.collect (w.arg m.core.context.stack 0) <;> rfl
  refine .own (by simp [active]) stepped fun s c told replying => ?_
  obtain ⟨-, rfl⟩ := raised_ok told
  exact rest s replying

theorem format_realizes (serves : Serves n call) {fuel : Nat} (enough : fuel ≤ n + 1) {c : Core}
    (working : m.activity ≠ .returned)
    (replying : m.activity.step m.core = c.performed f w (Builtin.formatOn s c.world))
    (found : c.world.callable f = .builtin .format) : m.Realizes fuel (handed (format call f w fuel s) c) := by
  induction fuel generalizing m s c with
  | zero => rfl
  | succ fuel ih =>
    have serves := serves.mono (Nat.le_of_succ_le_succ enough)
    rw [format]
    refine .own working (replying.trans (performed_raising _ _ c)) fun next d told replying => ?_
    obtain ⟨-, rfl⟩ := raised_ok told
    cases next with
    | finished text => exact .own_last working replying
    | textOf v s =>
      refine .calls working replying (text_realizes serves rfl) fun d precedes => ?_
      have kept : d.world.callable f = .builtin .format := precedes.callable_of_callable found (by simp) (by simp)
      exact format_resumes (fun _ replying => ih (by omega) (by simp [Frame.activity]) replying kept) rfl kept

theorem textResult_realizes (active : m.activity = .resume f w .unit)
    (found : m.core.world.callable f = .builtin .tostring) : m.Realizes n (handed (own (textResult w)) m.core) := by
  refine .own_last (by simp [active]) ?_
  rw [active, Activity.step_resume, found, Callable.resume_builtin, Builtin.resume, Window.headD_values, textResult]
  simp only [Core.bind_apply, getStack_apply]
  cases (w.arg m.core.context.stack 0).asText? with
  | none => rfl
  | some text => exact Core.bind_apply (onStack (w.ret [.str text])) _ m.core

theorem tostring_realizes (serves : Serves n call) {v : Value} {c : Core} (working : m.activity ≠ .returned)
    (replying : m.activity.step m.core = (Action.textOf v .unit).perform f w c)
    (found : c.world.callable f = .builtin .tostring) : m.Realizes (n + 1) (handed (tostring call f w v) c) :=
  .calls working replying (text_realizes serves rfl) fun _ precedes =>
    textResult_realizes rfl (precedes.callable_of_callable found (by simp) (by simp))

end Texts

section Answers

variable {m : Machine} {move : Move} {c d : Core}

/-- What a host function has replied is carried out, and once a call has come back it replies again. -/
theorem host_realizes {h : HostFunction} (serves : Serves n call) {fuel : Nat} (enough : fuel ≤ n + 1) {reply : Reply}
    (working : m.activity ≠ .returned)
    (replying : m.activity.step m.core = (onWorld reply.action >>= fun a => a.perform f w) m.core)
    (found : m.core.world.callable f = .host h) : m.Realizes fuel (handed (host call f w h fuel reply) m.core) := by
  induction fuel generalizing m reply with
  | zero => rfl
  | succ fuel ih =>
    have serves := serves.mono (Nat.le_of_succ_le_succ enough)
    rw [host]
    refine .own_move working replying fun move d moved => ?_
    have precedes := Activity.precedes_of_step moved
    rw [onWorld_perform] at replying
    cases Move.answers_of_performed (replying.symm.trans moved) with
    | returned => exact .done working moved
    | suspended => exact .suspends working moved
    | waits =>
      refine .calls working moved (request_realizes serves rfl) fun e later => ?_
      have kept : e.world.callable f = .host h := (precedes.trans later).callable_of_callable found (by simp) (by simp)
      refine ih (by omega) (by simp [Frame.activity]) ?_ kept
      simp only [Frame.activity, Activity.step_resume, kept]
      rfl

/-- A function that makes its only call hands on what comes back. -/
theorem last_realizes {called : Callable} (serves : Serves n call) (working : m.activity ≠ .returned)
    (stepped : m.activity.step m.core = (.ok move, c)) (found : m.core.world.callable f = called)
    (answers : move.Answers f w called.Forwards) : m.Realizes (n + 1) (handed (last call move) c) := by
  cases answers with
  | returned => exact .done working stepped
  | suspended => exact .suspends working stepped
  | @waits s forwards r inner =>
    have precedes := Activity.precedes_of_step stepped
    have nothing : last call (.call ⟨f, w, some s⟩ r inner) =
        (awaiting ⟨f, w, some s⟩ (request call r inner) >>= fun _ => pure ()) := (bind_pure _).symm
    rw [nothing]
    refine .calls working stepped (request_realizes serves rfl) fun d later => ?_
    obtain ⟨b, rfl, rfl, single⟩ := forwards
    have kept : d.world.callable f = .builtin b := (precedes.trans later).callable_of_callable found (by
      rintro ⟨⟩
      cases single) (by simp)
    refine .done (by simp [Frame.activity]) ?_
    simp only [Frame.activity, Activity.step_resume, kept, Callable.resume_builtin]
    cases b <;> cases single <;> rfl

end Answers

section Functions

variable {m : Machine} {fuel : Nat}

theorem begun_last {called : Callable} (single : called.Single) (fuel : Nat) : begun call f w fuel called =
    (own getStack >>= fun _ => own (called.invoke f w) >>= last call) := by
  cases called with
  | script p | host h => cases single
  | builtin b => cases b <;> first | rfl | exact absurd single (by simp [Callable.Single, Builtin.reach])
  | «matches» _ | lines _ _ => rfl

theorem resumed_last {called : Callable} {s : Saved} (other : ∀ h, called ≠ .host h)
    (single : called.expects s = true → called.Single) (fuel : Nat) :
    resumed call f w fuel called s = (own (called.resume f w s) >>= last call) := by
  cases called with
  | host h => exact absurd rfl (other h)
  | script p => cases s <;> first | rfl | exact (single rfl).elim
  | builtin b => cases b <;> cases s <;> first | rfl | exact absurd (single rfl) (by simp [Callable.Single, Builtin.reach])
  | «matches» _ | lines _ _ => rfl

/-- A function is called as the machine calls it. -/
theorem begun_realizes (serves : Serves n call) (enough : fuel ≤ n + 1) (active : m.activity = .enter f w) :
    m.Realizes fuel (handed (begun call f w fuel (m.core.world.callable f)) m.core) := by
  have working : m.activity ≠ .returned := by simp [active]
  have stepped : m.activity.step m.core = (m.core.world.callable f).invoke f w m.core := by
    rw [active]
    rfl
  have plain (single : (m.core.world.callable f).Single) :
      m.Realizes fuel (handed (begun call f w fuel (m.core.world.callable f)) m.core) := by
    rw [begun_last single, handed_own (getStack_apply m.core)]
    refine .own_move working stepped fun move d moved => ?_
    exact (last_realizes serves working moved rfl (Callable.invoke_answers single (stepped.symm.trans moved))).mono enough
  cases found : m.core.world.callable f with
  | script p =>
    rw [found] at stepped
    rw [begun, handed_own (getStack_apply m.core)]
    refine .own working stepped fun _ d entered running => ?_
    refine (Realizes.goes working running (script_realizes serves enough rfl ?_)).mono fuel.le_succ
    have same := (p.enter_local w).world m.core
    rw [entered] at same
    exact (congrArg (World.callable · f) same).trans found
  | builtin b =>
    rw [found, Callable.invoke_builtin] at stepped
    by_cases single : b.reach ≤ 1
    · exact found ▸ plain (by rwa [found])
    rw [begun, handed_own (getStack_apply m.core)]
    cases b with
    | gsub =>
      refine .own working (stepped.trans (performed_raising _ _ m.core)) fun s c read replying => ?_
      obtain ⟨-, rfl⟩ := raised_ok read
      exact substitute_realizes serves enough working replying found
    | format =>
      refine .own working (stepped.trans (performed_raising _ _ m.core)) fun s c read replying => ?_
      obtain ⟨-, rfl⟩ := raised_ok read
      exact format_realizes serves enough working replying found
    | tostring =>
      refine .own working (stepped.trans (performed_raising _ _ m.core)) fun v c read replying => ?_
      obtain ⟨-, rfl⟩ := raised_ok read
      exact (tostring_realizes serves working replying found).mono enough
    | _ => exact absurd (by decide) single
  | «matches» cursor => exact found ▸ plain (by rw [found]; trivial)
  | lines file formats => exact found ▸ plain (by rw [found]; trivial)
  | host h =>
    rw [found] at stepped
    rw [begun, handed_own (getStack_apply m.core)]
    exact host_realizes serves enough working stepped found

/-- A function that was suspended goes on as the machine lets it go on. -/
theorem resumed_realizes (serves : Serves n call) (enough : fuel ≤ n + 1) {s : Saved} (active : m.activity = .resume f w s) :
    m.Realizes fuel (handed (resumed call f w fuel (m.core.world.callable f) s) m.core) := by
  have working : m.activity ≠ .returned := by simp [active]
  have stepped : m.activity.step m.core = (m.core.world.callable f).resume f w s m.core := by
    rw [active]
    rfl
  have plain (other : ∀ h, m.core.world.callable f ≠ .host h)
      (single : (m.core.world.callable f).expects s = true → (m.core.world.callable f).Single) :
      m.Realizes fuel (handed (resumed call f w fuel (m.core.world.callable f) s) m.core) := by
    rw [resumed_last other single]
    refine .own_move working stepped fun move d moved => ?_
    have answers := Callable.resume_answers other single (stepped.symm.trans moved)
    exact (last_realizes serves working moved rfl answers).mono enough
  cases found : m.core.world.callable f with
  | script p =>
    cases s with
    | script pc pending =>
      exact (script_resumes (fun _ => script_realizes serves enough) active found).mono fuel.le_succ
    | _ => exact found ▸ plain (by simp [found]) (by rw [found]; rintro ⟨⟩)
  | builtin b =>
    by_cases single : b.expects s = true → b.reach ≤ 1
    · exact found ▸ plain (by simp [found]) (by rwa [found])
    obtain ⟨expected, several⟩ := Classical.not_imp.mp single
    cases b with
    | gsub =>
      cases s with
      | substitution s =>
        exact substitute_resumes (fun _ replying => substitute_realizes serves enough working replying found) active found
      | _ => cases expected
    | format =>
      cases s with
      | formatting s =>
        exact format_resumes (fun _ replying => format_realizes serves enough working replying found) active found
      | _ => cases expected
    | tostring =>
      cases s with
      | unit => exact textResult_realizes active found
      | _ => cases expected
    | _ => exact absurd (by decide) several
  | «matches» cursor => exact found ▸ plain (by simp [found]) (by rw [found]; exact fun _ => trivial)
  | lines file formats => exact found ▸ plain (by simp [found]) (by rw [found]; exact fun _ => trivial)
  | host h =>
    rw [found] at stepped
    rw [resumed, handed_own (getStack_apply m.core)]
    exact host_realizes serves enough working stepped found

end Functions

end Evaluation

end CoopScript
