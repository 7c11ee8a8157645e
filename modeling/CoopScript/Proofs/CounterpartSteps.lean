import CoopScript.Proofs.CounterpartAnswers
import CoopScript.Proofs.CounterpartWorlds
import CoopScript.Proofs.FileCalls
import CoopScript.Proofs.PreemptionCount

/-! Steps of counterparts. Requests, instructions, actions and the functions of the library lead
counterparts to counterparts, with one more pair of functions where an iteration comes into being.
Only the text of a function that has come into being tells the two apart. -/

namespace CoopScript

/-- States that scripts and self-contained functions save. -/
inductive Saved.Twin (P : Pairing) : Saved → Saved → Prop where
  | unit : Twin P .unit .unit
  | arguments {vs vs' : List Value} (values : Values.Twin P vs vs') : Twin P (.arguments vs) (.arguments vs')
  | script (pc : Nat) (pending : Option Pending) : Twin P (.script pc pending) (.script pc pending)
  | substitution {s t : Substitution} (twin : s.Twin P t) : Twin P (.substitution s) (.substitution t)
  | formatting {s t : Formatting} (twin : s.Twin P t) : Twin P (.formatting s) (.formatting t)

structure Frame.Twin (P : Pairing) (x y : Frame) : Prop where
  function : P.functions x.function y.function
  base : y.base = x.base
  state : Option.Rel (Saved.Twin P) x.state y.state

inductive Request.Twin (P : Pairing) : Request → Request → Prop where
  | value {v v' : Value} (value : v.Twin P v') : Twin P (.value v) (.value v')
  | function {f g : FunctionId} (paired : P.functions f g) : Twin P (.function f) (.function g)
  | index {v v' k k' : Value} (object : v.Twin P v') (key : k.Twin P k') : Twin P (.index v k) (.index v' k')
  | text {v v' : Value} (value : v.Twin P v') : Twin P (.text v) (.text v')

inductive Activity.Twin (P : Pairing) : Activity → Activity → Prop where
  | returned : Twin P .returned .returned
  | dispatch {r r' : Request} (twin : r.Twin P r') (w : Window) : Twin P (.dispatch r w) (.dispatch r' w)
  | enter {f g : FunctionId} (paired : P.functions f g) (w : Window) : Twin P (.enter f w) (.enter g w)
  | resume {f g : FunctionId} {s t : Saved} (paired : P.functions f g) (w : Window) (twin : s.Twin P t) :
      Twin P (.resume f w s) (.resume g w t)
  | running {f g : FunctionId} (paired : P.functions f g) (w : Window) (pc : Nat) :
      Twin P (.running f w pc) (.running g w pc)

inductive Move.Twin (P : Pairing) : Move → Move → Prop where
  | go {a a' : Activity} (twin : a.Twin P a') : Twin P (.go a) (.go a')
  | call {x y : Frame} {r r' : Request} (frame : x.Twin P y) (request : r.Twin P r') (w : Window) :
      Twin P (.call x r w) (.call y r' w)
  | suspend (reason : SuspendReason) {x y : Frame} (frame : x.Twin P y) : Twin P (.suspend reason x) (.suspend reason y)

/-- Actions of self-contained functions. -/
inductive Action.Twin (P : Pairing) : Action → Action → Prop where
  | ret {vs vs' : List Value} (values : Values.Twin P vs vs') : Twin P (.ret vs) (.ret vs')
  | suspend (reason : SuspendReason) {s t : Saved} (state : s.Twin P t) : Twin P (.suspend reason s) (.suspend reason t)
  | call {v v' : Value} {vs vs' : List Value} {s t : Saved} (callee : v.Twin P v') (values : Values.Twin P vs vs')
      (shift : Nat) (state : s.Twin P t) : Twin P (.call v vs shift s) (.call v' vs' shift t)
  | index {v v' k k' : Value} {s t : Saved} (object : v.Twin P v') (key : k.Twin P k') (state : s.Twin P t) :
      Twin P (.index v k s) (.index v' k' t)
  | textOf {v v' : Value} {s t : Saved} (value : v.Twin P v') (state : s.Twin P t) : Twin P (.textOf v s) (.textOf v' t)

/-- The cores differ in the count of preemptions, and in their worlds and registers as counterparts
do. -/
structure Core.Twin (P : Pairing) (c d : Core) : Prop where
  world : c.world.Twin P d.world
  stack : c.context.stack.Twin P d.context.stack
  budget : c.context.budget.SameButCount d.context.budget
  draining : d.context.draining = c.context.draining

section Monotone

variable {P Q : Pairing}

theorem Saved.Twin.mono {s t : Saved} (within : P.Within Q) (twin : s.Twin P t) : s.Twin Q t := by
  cases twin with
  | unit => exact .unit
  | arguments values => exact .arguments (values.mono within)
  | script pc pending => exact .script pc pending
  | substitution twin => exact .substitution (twin.mono within)
  | formatting twin => exact .formatting (twin.mono within)

theorem Frame.Twin.mono {x y : Frame} (within : P.Within Q) (twin : x.Twin P y) : x.Twin Q y := by
  refine ⟨within.functions _ _ twin.function, twin.base, ?_⟩
  have state := twin.state
  generalize x.state = here at state ⊢
  generalize y.state = there at state ⊢
  cases state with
  | none => exact .none
  | some state => exact .some (state.mono within)

theorem Frame.Twin.waiting {f g : FunctionId} (paired : P.functions f g) (w : Window) {s t : Saved}
    (state : s.Twin P t) : Frame.Twin P ⟨f, w, some s⟩ ⟨g, w, some t⟩ :=
  ⟨paired, rfl, .some state⟩

end Monotone

namespace Core

variable {P : Pairing}

theorem Twin.withStack {c d : Core} (twin : c.Twin P d) {s t : RegisterStack} (stack : s.Twin P t) :
    (c.withStack s).Twin P (d.withStack t) :=
  ⟨twin.world, stack, twin.budget, twin.draining⟩

/-- Operations that come to counterparts without changing a world. -/
def Still {α β : Type} (P : Pairing) (rel : α → β → Prop) (here : CoreM α) (there : CoreM β) : Prop :=
  ∀ c d : Core, c.Twin P d → Likewise rel (here c).1 (there d).1 ∧ (here c).2.Twin P (there d).2

namespace Still

variable {α β γ δ : Type} {rel : α → β → Prop} {after : γ → δ → Prop}

theorem pure {a : α} {b : β} (related : rel a b) : Still P rel (Pure.pure a) (Pure.pure b) :=
  fun _ _ twin => ⟨.ok related, twin⟩

theorem throw (e : Failure) : Still P rel (MonadExcept.throw e) (MonadExcept.throw e) := fun _ _ twin => ⟨.error e, twin⟩

theorem bind {here : CoreM α} {there : CoreM β} {next : α → CoreM γ} {next' : β → CoreM δ} (first : Still P rel here there)
    (rest : ∀ a b, rel a b → Still P after (next a) (next' b)) : Still P after (here >>= next) (there >>= next') := by
  intro c d twin
  obtain ⟨likewise, stays⟩ := first c d twin
  simp only [bind_apply]
  generalize here c = ran at likewise stays
  generalize there d = ran' at likewise stays
  obtain ⟨result, c'⟩ := ran
  obtain ⟨result', d'⟩ := ran'
  cases likewise with
  | error e => exact ⟨.error e, stays⟩
  | ok related => exact rest _ _ related c' d' stays

theorem onStack {here there : StackM Unit} (parallel : RegisterStack.Parallel P here there) :
    Still P Eq (onStack here) (Core.onStack there) := by
  intro c d twin
  obtain ⟨same, stack⟩ := parallel _ _ twin.stack
  refine ⟨?_, twin.withStack stack⟩
  simp only [onStack_apply, same]
  split
  · exact .ok rfl
  · exact .error _

theorem modifyStack {change change' : RegisterStack → RegisterStack}
    (parallel : ∀ s t : RegisterStack, s.Twin P t → (change s).Twin P (change' t)) :
    Still P Eq (modifyStack change) (Core.modifyStack change') :=
  fun _ _ twin => ⟨.ok rfl, twin.withStack (parallel _ _ twin.stack)⟩

theorem getStack : Still P (RegisterStack.Twin P) getStack getStack := fun _ _ twin => ⟨.ok twin.stack, twin⟩

theorem getWorld : Still P (World.Twin P) getWorld getWorld := fun _ _ twin => ⟨.ok twin.world, twin⟩

end Still

end Core

open CoopScript.Core

private theorem answer_still {P : Pairing} (w : Window) {vs vs' : List Value} (values : Values.Twin P vs vs')
    {a a' : Activity} (active : a.Twin P a') :
    Still P (Activity.Twin P) (onStack (w.ret vs) >>= fun _ => pure a) (onStack (w.ret vs') >>= fun _ => pure a') :=
  (Still.onStack (w.ret_parallel values)).bind fun _ _ _ => .pure active

private theorem callThrough_still {P : Pairing} {here there : World} (worlds : here.Twin P there) (w : Window) {v v' : Value}
    (value : v.Twin P v') : Still P (Activity.Twin P) (Request.callThrough w v (here.metamethod? v "__call"))
      (Request.callThrough w v' (there.metamethod? v' "__call")) := by
  have handler := worlds.metamethod? value "__call"
  unfold Request.callThrough
  rw [value.kind]
  generalize here.metamethod? v "__call" = handler? at handler ⊢
  generalize there.metamethod? v' "__call" = handler?' at handler ⊢
  cases handler with
  | none => exact .throw _
  | @some object _ handler =>
    cases handler with
    | function paired => exact (Still.onStack (w.prepend_parallel value)).bind fun _ _ _ => .pure (.enter paired w)
    | same shared =>
      cases object with
      | function => cases shared
      | _ => exact .throw _

/-- A request is served alike, as long as it does not ask for the place of a function that has come
into being. -/
theorem Request.serve_still {P : Pairing} {r r' : Request} (twin : r.Twin P r') (w : Window)
    (fixes : ∀ v, r = .text v → P.Fixes v) : Still P (Activity.Twin P) (r.serve w) (r'.serve w) := by
  refine Still.getWorld.bind fun here there worlds => ?_
  cases twin with
  | function paired => exact .pure (.enter paired w)
  | @value v _ value =>
    cases value with
    | function paired => exact .pure (.enter paired w)
    | same shared =>
      cases v with
      | function => cases shared
      | _ => exact callThrough_still worlds w (.same shared)
  | index object key =>
    have found := worlds.lookup key indexChainLimit object
    simp only
    generalize here.lookup _ indexChainLimit _ = result at found ⊢
    generalize there.lookup _ indexChainLimit _ = result' at found ⊢
    cases found with
    | error e => exact .throw _
    | ok found =>
      cases found with
      | found value => exact answer_still w (.cons value .nil) .returned
      | handler paired owner => exact answer_still w (.cons owner (.cons key .nil)) (.enter paired w)
  | text value =>
    have told := worlds.defaultText_of_fixes value (fixes _ rfl)
    have handler := worlds.metamethod? value "__tostring"
    simp only [told]
    generalize here.metamethod? _ "__tostring" = handler? at handler ⊢
    generalize there.metamethod? _ "__tostring" = handler?' at handler ⊢
    cases handler with
    | none => exact answer_still w (.cons (.str _) .nil) .returned
    | some handler => exact answer_still w (.cons value .nil) (.dispatch (.value handler) w)

namespace Effect

inductive Twin (P : Pairing) : Effect → Effect → Prop where
  | advance : Twin P .advance .advance
  | jump (target : Nat) : Twin P (.jump target) (.jump target)
  | await (pending : Pending) {r r' : Request} (request : r.Twin P r') (w : Window) :
      Twin P (.await pending r w) (.await pending r' w)
  | leave : Twin P .leave .leave

variable {P : Pairing}

theorem Twin.move {e e' : Effect} (twin : e.Twin P e') {f g : FunctionId} (paired : P.functions f g) (w : Window)
    (pc : Nat) : (e.move f w pc).Twin P (e'.move g w pc) := by
  cases twin with
  | advance => exact .go (.running paired w _)
  | jump target => exact .go (.running paired w _)
  | await pending request callee => exact .call (.waiting paired w (.script _ _)) request callee
  | leave => exact .go .returned

/-- Outcomes of an instruction that are counterparts. -/
def Agree (P : Pairing) (here there : Except Failure Effect × RegisterStack) : Prop :=
  Likewise (Effect.Twin P) here.1 there.1 ∧ here.2.Twin P there.2

theorem agree_after {e e' : Effect} (twin : e.Twin P e') {here there : StackM Unit}
    (parallel : RegisterStack.Parallel P here there) {s t : RegisterStack} (stack : s.Twin P t) :
    Agree P (e.after (here s)) (e'.after (there t)) := by
  obtain ⟨same, after⟩ := parallel s t stack
  generalize here s = ran at same after
  generalize there t = ran' at same after
  obtain ⟨result, s'⟩ := ran
  obtain ⟨_, t'⟩ := ran'
  cases same
  cases result with
  | error e => exact ⟨.error _, after⟩
  | ok _ => exact ⟨.ok twin, after⟩

theorem agree_storing (w : Window) {s t : RegisterStack} (stack : s.Twin P t) (dst : Nat)
    {value : Except ScriptError Value} (shared : ∀ v, value = .ok v → P.Shares v) :
    Agree P (storing w s dst value) (storing w t dst value) := by
  cases value with
  | error e => exact ⟨.error _, stack⟩
  | ok v => exact ⟨.ok .advance, stack.set _ (.same (shared v rfl))⟩

end Effect

theorem arith_shares (P : Pairing) {op : ArithOp} {u v x : Value} (ok : arith op u v = .ok x) : P.Shares x := by
  unfold arith arithInt at ok
  split at ok
  · split at ok <;> try cases ok; trivial
    split at ok <;> cases ok
    trivial
  · split at ok <;> cases ok
    trivial

theorem concatValues_shares (P : Pairing) {u v x : Value} (ok : concatValues u v = .ok x) : P.Shares x := by
  unfold concatValues at ok
  split at ok <;> cases ok
  trivial

namespace Proto

variable {P : Pairing} {p : Proto} {s t : RegisterStack}

theorem constant_twin (constants : ∀ v ∈ p.constants, v.Twin P v) (i : Nat) : (p.constant i).Twin P (p.constant i) := by
  simp only [constant]
  cases found : p.constants[i]? with
  | none => exact .nil
  | some v => exact constants v (List.mem_of_getElem? found)

/-- An instruction does the same to counterparts. -/
theorem effect_twin (oneToOne : P.OneToOne) (constants : ∀ v ∈ p.constants, v.Twin P v) (w : Window)
    (stack : s.Twin P t) (found : Option Instr) : Effect.Agree P (p.effect w s found) (p.effect w t found) := by
  have reg (r : Nat) : (w.get s r).Twin P (w.get t r) := stack.get _
  have stored (dst : Nat) {v v' : Value} (value : v.Twin P v') :
      Effect.Agree P (.ok .advance, w.set s dst v) (.ok .advance, w.set t dst v') :=
    ⟨.ok .advance, stack.set _ value⟩
  cases found with
  | none => exact Effect.agree_after .leave (w.setTop_parallel 0) stack
  | some instr =>
    cases instr with
    | loadConst dst index => exact stored dst (constant_twin constants index)
    | loadNil dst => exact stored dst .nil
    | move dst src => exact stored dst (reg src)
    | arith op dst lhs rhs =>
      simp only [effect, arith_twin op (reg lhs) (reg rhs)]
      exact Effect.agree_storing w stack dst fun _ ok => arith_shares P ok
    | compare op dst lhs rhs =>
      simp only [effect, compareValues_twin oneToOne op (reg lhs) (reg rhs)]
      refine Effect.agree_storing w stack dst fun v ok => ?_
      cases compared : compareValues op (w.get s lhs) (w.get s rhs) <;> rw [compared] at ok <;> cases ok
      trivial
    | concat dst lhs rhs =>
      simp only [effect, concatValues_twin (reg lhs) (reg rhs)]
      exact Effect.agree_storing w stack dst fun _ ok => concatValues_shares P ok
    | jump target => exact ⟨.ok (.jump target), stack⟩
    | jumpIfNot cond target =>
      simp only [effect, (reg cond).isTruthy]
      refine ⟨.ok ?_, stack⟩
      split
      · exact .advance
      · exact .jump target
    | getField dst table key =>
      exact ⟨.ok (.await _ (.index (reg table) (constant_twin constants key)) _), stack⟩
    | call base nargs nresults =>
      exact Effect.agree_after (.await _ (.value (reg base)) _) (Window.setTop_parallel _ nargs) stack
    | ret first count =>
      refine Effect.agree_after .leave (w.setTop_parallel count) ?_
      split
      · exact stack.move _ _ _
      · exact stack
    | charge _ | tick => exact ⟨.ok .advance, stack⟩

theorem step_still {f g : FunctionId} (paired : P.functions f g) (constants : ∀ v ∈ p.constants, v.Twin P v) (w : Window)
    (pc : Nat) : Still P (Move.Twin P) (p.step f w pc) (p.step g w pc) := by
  intro c d twin
  have goes : (Move.go (.running f w (pc + 1))).Twin P (.go (.running g w (pc + 1))) := .go (.running paired w _)
  rcases p.place_cases pc with plain | ⟨cost, found⟩ | found
  · rw [step_plain c plain, step_plain d plain]
    obtain ⟨likewise, stack⟩ := effect_twin twin.world.oneToOne constants w twin.stack p.code[pc]?
    refine ⟨?_, twin.withStack stack⟩
    exact likewise.map fun _ _ effects => effects.move paired w pc
  · rw [step_charge c found, step_charge d found]
    exact ⟨.ok goes, twin.world, twin.stack, twin.budget.charge cost, twin.draining⟩
  · rw [step_tick c found, step_tick d found, twin.budget.isExhausted]
    cases c.context.budget.isExhausted with
    | true =>
      have waits : Frame.Twin P ⟨f, w, some (.script (pc + 1) none)⟩ ⟨g, w, some (.script (pc + 1) none)⟩ :=
        .waiting paired w (.script _ _)
      exact ⟨.ok (.suspend _ waits), twin.world, twin.stack, twin.budget.recordPreemption, twin.draining⟩
    | false => exact ⟨.ok goes, twin⟩

theorem enter_still (p : Proto) (w : Window) : Still P Eq (p.enter w) (p.enter w) := by
  refine Still.getStack.bind fun s t stack => ?_
  rw [w.top_twin stack]
  split
  · exact (Still.onStack (w.setTop_parallel _)).bind fun _ _ _ => .onStack (w.setTop_parallel _)
  · exact .onStack (w.setTop_parallel _)

theorem collectResults_twin (w : Window) (a nresults : Nat) (stack : s.Twin P t) :
    (collectResults s w a nresults).Twin P (collectResults t w a nresults) := by
  simp only [collectResults, Window.top_twin _ stack]
  exact ((stack.move _ _ _).clear _ _).clear _ _

theorem resume_still (p : Proto) (w : Window) (pending : Option Pending) :
    Still P Eq (p.resume w pending) (p.resume w pending) := by
  cases pending with
  | none => exact .onStack (w.setTop_parallel _)
  | some pending =>
    cases pending with
    | call base nresults =>
      refine (Still.modifyStack fun s t stack => collectResults_twin w base nresults stack).bind fun _ _ _ => ?_
      exact .onStack (w.setTop_parallel _)
    | index dst =>
      refine (Still.modifyStack fun s t stack => stack.set _ ((p.scratch w).arg_twin stack 0)).bind fun _ _ _ => ?_
      exact .onStack (w.setTop_parallel _)

end Proto

theorem Action.perform_still {P : Pairing} {f g : FunctionId} (paired : P.functions f g) (w : Window) {a a' : Action}
    (twin : a.Twin P a') : Still P (Move.Twin P) (a.perform f w) (a'.perform g w) := by
  cases twin with
  | ret values => exact (Still.onStack (w.ret_parallel values)).bind fun _ _ _ => .pure (.go .returned)
  | suspend reason state => exact .pure (.suspend reason (.waiting paired w state))
  | call callee values shift state =>
    refine (Still.onStack (w.setTop_parallel 0)).bind fun _ _ _ => ?_
    refine (Still.onStack ((w.shift shift).pushAll_parallel values)).bind fun _ _ _ => ?_
    exact .pure (.call (.waiting paired w state) (.value callee) _)
  | index object key state => exact .pure (.call (.waiting paired w state) (.index object key) w)
  | textOf value state => exact .pure (.call (.waiting paired w state) (.text value) w)

namespace World

/-- Operations that come to counterparts, possibly of functions that have come into being. -/
def Parallel {α β : Type} (P : Pairing) (rel : Pairing → α → β → Prop) (here : WorldM α) (there : WorldM β) : Prop :=
  ∀ w v : World, w.Twin P v →
    ∃ Q, P.Grows w v Q ∧ Likewise (rel Q) (here w).1 (there v).1 ∧ (here w).2.Twin Q (there v).2

namespace Parallel

variable {α β γ δ : Type} {P : Pairing} {rel : Pairing → α → β → Prop}

theorem pure {a : α} {b : β} (related : rel P a b) : Parallel P rel (Pure.pure a) (Pure.pure b) :=
  fun _ _ twin => ⟨P, .refl P _ _, .ok related, twin⟩

theorem throw (e : Failure) : Parallel P rel (MonadExcept.throw e) (MonadExcept.throw e) :=
  fun _ _ twin => ⟨P, .refl P _ _, .error e, twin⟩

theorem raising {told : γ → δ → Prop} {here : Except ScriptError γ} {there : Except ScriptError δ} {next : γ → WorldM α}
    {next' : δ → WorldM β} (likewise : Likewise told here there)
    (rest : ∀ x y, told x y → Parallel P rel (next x) (next' y)) :
    Parallel P rel (raising here >>= next) (CoopScript.raising there >>= next') := by
  cases likewise with
  | ok related => exact rest _ _ related
  | error e => exact .throw _

end Parallel

end World

namespace Builtin

open World

variable {P : Pairing} {args args' : List Value}

private theorem native_parallel {f : List Value → Except ScriptError (List Value)}
    (twins : Likewise (Values.Twin P) (f args) (f args')) : Parallel P Action.Twin (native f args) (native f args') :=
  .raising twins fun _ _ values => .pure (.ret values)

theorem substituteOn_twin {s t : Substitution} (twin : s.Twin P t) : (substituteOn s).Twin P (substituteOn t) := by
  obtain ⟨r, rfl, replacement⟩ := twin
  have next := Substitution.run_twin ⟨r, rfl, replacement⟩ (2 * s.subject.size + 3)
  simp only [substituteOn, Substitution.advance]
  generalize Substitution.run s _ = here at next ⊢
  generalize Substitution.run { s with replacement := r } _ = there at next ⊢
  cases next with
  | finished shared => exact .ret (.of_shared shared)
  | lookup known shared twin => exact .index (.same known) (.same shared) (.substitution twin)
  | call paired shared twin => exact .call (.function paired) (.of_shared shared) 0 (.substitution twin)

theorem formatOn_parallel {s t : Formatting} (twin : s.Twin P t) : Parallel P Action.Twin (formatOn s) (formatOn t) := by
  obtain ⟨a, rfl, arguments⟩ := twin
  refine .raising (Formatting.run_twin ⟨a, rfl, arguments⟩ _) fun here there next => ?_
  cases next with
  | finished text => exact .pure (.ret (.cons (.str text) .nil))
  | textOf value twin => exact .pure (.textOf value (.formatting twin))

/-- Each world gets an iteration of its own. -/
private theorem gmatchOf_parallel (twins : Values.Twin P args args') :
    Parallel P Action.Twin (gmatchOf args) (gmatchOf args') := by
  refine .raising (Strings.matches?_likewise twins) ?_
  rintro cursor _ rfl w v twin
  refine ⟨_, P.grows_join _ _, .ok ?_, twin.addFunction cursor⟩
  exact .ret (.cons (.function (.inr ⟨rfl, rfl⟩)) .nil)

/-- A self-contained function answers counterparts with counterparts. The error that is raised
for an argument without a text tells its place. -/
theorem invoke_parallel {b : Builtin} (selfContained : b.isSelfContained = true) (twins : Values.Twin P args args')
    (fixes : b = .error → P.Fixes (args.headD .nil)) : Parallel P Action.Twin (b.invoke args) (b.invoke args') := by
  cases b with
  | pause => exact .pure (.suspend _ (.arguments twins))
  | tostring =>
    have read := Arguments.Parallel.nextAny.reading "tostring" twins
    exact .raising read fun v v' value => .pure (.textOf value .unit)
  | typeName => exact native_parallel (typeOf_twin twins)
  | error =>
    intro w v twin
    have text : (args'.headD .nil).asText?.getD (v.defaultText (args'.headD .nil)) =
        (args.headD .nil).asText?.getD (w.defaultText (args.headD .nil)) := by
      rw [twins.headD.asText?, twin.defaultText_of_fixes twins.headD (fixes rfl)]
    refine ⟨P, .refl P _ _, ?_, twin⟩
    change Likewise _ (.error (Failure.script (.raised _))) (.error (Failure.script (.raised _)))
    rw [text]
    exact .error _
  | format => exact .raising (Formatting.start_twin twins) fun _ _ twin => formatOn_parallel twin
  | gsub => exact .raising (Substitution.start_twin twins) fun _ _ twin => .pure (substituteOn_twin twin)
  | byte => exact native_parallel (Strings.byte_twin twins)
  | char => exact native_parallel (Strings.char_twin twins)
  | find => exact native_parallel (Strings.find_twin twins)
  | gmatch => exact gmatchOf_parallel twins
  | len => exact native_parallel (Strings.len_twin twins)
  | lower => exact native_parallel (Strings.lower_twin twins)
  | firstMatch => exact native_parallel (Strings.firstMatch_twin twins)
  | rep => exact native_parallel (Strings.rep_twin twins)
  | reverse => exact native_parallel (Strings.reverse_twin twins)
  | sub => exact native_parallel (Strings.sub_twin twins)
  | upper => exact native_parallel (Strings.upper_twin twins)
  | _ => cases selfContained

theorem resume_parallel {b : Builtin} (selfContained : b.isSelfContained = true) {s t : Saved} (state : s.Twin P t)
    (twins : Values.Twin P args args') : Parallel P Action.Twin (b.resume s args) (b.resume t args') := by
  have expects : b.expects t = b.expects s := by
    cases state <;> cases b <;> rfl
  cases expected : b.expects s with
  | false =>
    intro w v twin
    rw [resume_unexpected expected, resume_unexpected (expects.trans expected)]
    exact ⟨P, .refl P _ _, .error _, twin⟩
  | true =>
    unfold Builtin.expects at expected
    split at expected
    · cases state with
      | arguments values => exact .pure (.ret values)
    · cases state
      simp only [resume, twins.headD.asText?]
      split
      · exact .pure (.ret (.cons (.str _) .nil))
      · exact .throw _
    · cases state with
      | formatting twin => exact .raising (Formatting.collect_twin twin twins.headD) fun _ _ twin => formatOn_parallel twin
    · cases state with
      | substitution twin =>
        exact .raising (Substitution.collect_twin twin twins.headD) fun _ _ twin => .pure (substituteOn_twin twin)
    all_goals first | cases selfContained | cases expected

end Builtin

namespace Core

variable {P : Pairing} {c d : Core} {f g : FunctionId}

/-- Outcomes of steps from these cores that are counterparts. Functions may have come into being. -/
def Follows (P : Pairing) (c d : Core) (here there : Except Failure Move × Core) : Prop :=
  ∃ Q, P.Grows c.world d.world Q ∧ Likewise (Move.Twin Q) here.1 there.1 ∧ here.2.Twin Q there.2

theorem Still.follows {here there : CoreM Move} (still : Still P (Move.Twin P) here there) (twin : c.Twin P d) :
    Follows P c d (here c) (there d) :=
  ⟨P, .refl P _ _, still c d twin⟩

theorem performed_follows (twin : c.Twin P d) (paired : P.functions f g) (w : Window) {here there : WorldM Action}
    (parallel : World.Parallel P Action.Twin here there) :
    Follows P c d (c.performed f w (here c.world)) (d.performed g w (there d.world)) := by
  obtain ⟨Q, grows, likewise, worlds⟩ := parallel _ _ twin.world
  generalize here c.world = ran at likewise worlds ⊢
  generalize there d.world = ran' at likewise worlds ⊢
  obtain ⟨result, w'⟩ := ran
  obtain ⟨result', v'⟩ := ran'
  have after : Core.Twin Q { c with world := w' } { d with world := v' } :=
    ⟨worlds, twin.stack.mono grows.toWithin, twin.budget, twin.draining⟩
  cases likewise with
  | error e => exact ⟨Q, grows, .error e, after⟩
  | ok actions =>
    exact ⟨Q, grows, Action.perform_still (grows.functions f g paired) w actions _ _ after⟩

end Core

namespace Callable

variable {P : Pairing} {c d : Core} {f g : FunctionId}

/-- Functions that are paired do the same when they are called. -/
theorem invoke_follows (twin : c.Twin P d) (paired : P.functions f g) (w : Window)
    (fixes : c.world.callable f = .builtin .error → P.Fixes ((w.values c.context.stack).headD .nil)) :
    Follows P c d ((c.world.callable f).invoke f w c) ((d.world.callable g).invoke g w d) := by
  have called := twin.world.functions f g paired
  have held := w.values_twin twin.stack
  generalize c.world.callable f = here at called fixes ⊢
  generalize d.world.callable g = there at called ⊢
  cases called with
  | @script p constants =>
    have still : Still P (Move.Twin P) ((script p).invoke f w) ((script p).invoke g w) := by
      refine Still.getStack.bind fun _ _ _ => (p.enter_still w).bind fun _ _ _ => ?_
      exact .pure (.go (.running paired w 0))
    exact still.follows twin
  | @builtin b selfContained =>
    rw [invoke_builtin, invoke_builtin]
    refine performed_follows twin paired w (Builtin.invoke_parallel selfContained held ?_)
    rintro rfl
    exact fixes rfl
  | iteration cursor =>
    have moved : Core.Twin P { c with world := c.world.setCallable f (.matches cursor.advance.2) }
        { d with world := d.world.setCallable g (.matches cursor.advance.2) } :=
      ⟨twin.world.setCallable paired _, twin.stack, twin.budget, twin.draining⟩
    have captured : Values.Twin P cursor.advance.1 cursor.advance.1 := by
      apply Values.Twin.of_shared
      simp only [Pattern.Cursor.advance]
      split
      · exact Pattern.Found.captures_shared P _ _
      · simp [Pairing.Shares]
    exact ⟨P, .refl P _ _, Action.perform_still paired w (.ret captured) _ _ moved⟩

/-- From states that are counterparts they go on alike. -/
theorem resume_follows (twin : c.Twin P d) (paired : P.functions f g) (w : Window) {s t : Saved} (state : s.Twin P t) :
    Follows P c d ((c.world.callable f).resume f w s c)
      ((d.world.callable g).resume g w t d) := by
  have called := twin.world.functions f g paired
  have held := w.values_twin twin.stack
  generalize c.world.callable f = here at called ⊢
  generalize d.world.callable g = there at called ⊢
  cases called with
  | @script p constants =>
    have still : Still P (Move.Twin P) ((script p).resume f w s) ((script p).resume g w t) := by
      refine Still.getStack.bind fun _ _ _ => ?_
      cases state with
      | script pc pending =>
        refine (p.resume_still w pending).bind fun _ _ _ => ?_
        exact .pure (.go (.running paired w pc))
      | _ => exact .throw _
    exact still.follows twin
  | @builtin b selfContained =>
    rw [resume_builtin, resume_builtin]
    exact performed_follows twin paired w (Builtin.resume_parallel selfContained state held)
  | iteration cursor => exact ⟨P, .refl P _ _, .error _, twin⟩

end Callable

namespace Activity

/-- The place of a function that the pairing does not fix is not about to be told. -/
structure Discreet (P : Pairing) (c : Core) (a : Activity) : Prop where
  text : ∀ v w, a = .dispatch (.text v) w → P.Fixes v
  raised : ∀ f w, a = .enter f w → c.world.callable f = .builtin .error →
    P.Fixes ((w.values c.context.stack).headD .nil)

variable {P : Pairing} {c d : Core}

theorem Discreet.mono {Q : Pairing} {a : Activity} (within : P.Within Q) (discreet : a.Discreet P c) : a.Discreet Q c :=
  ⟨fun v w asked => within.fixes (discreet.text v w asked),
    fun f w entered raises => within.fixes (discreet.raised f w entered raises)⟩

/-- A step takes counterparts to counterparts. -/
theorem step_follows {a a' : Activity} (active : a.Twin P a') (twin : c.Twin P d) (discreet : a.Discreet P c) :
    Follows P c d (a.step c) (a'.step d) := by
  cases active with
  | returned => exact ⟨P, .refl P _ _, .ok (.go .returned), twin⟩
  | dispatch request w =>
    have served := Request.serve_still request w fun v asked => discreet.text v w (by rw [asked])
    exact (served.bind fun _ _ active => .pure (.go active)).follows twin
  | enter paired w => exact Callable.invoke_follows twin paired w (discreet.raised _ w rfl)
  | resume paired w state => exact Callable.resume_follows twin paired w state
  | @running f g paired w pc =>
    have called := twin.world.functions f g paired
    simp only [step, Core.bind_apply, Core.getWorld_apply]
    generalize c.world.callable f = here at called ⊢
    generalize d.world.callable g = there at called ⊢
    cases called with
    | @script p constants => exact (p.step_still paired constants w pc).follows twin
    | builtin => exact ⟨P, .refl P _ _, .ok (.go .returned), twin⟩
    | iteration => exact ⟨P, .refl P _ _, .ok (.go .returned), twin⟩

end Activity

end CoopScript
