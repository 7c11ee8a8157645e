import CoopScript.Proofs.ClearRegisters
import CoopScript.Proofs.ExecutorStates
import CoopScript.Proofs.ProtocolSafety
import CoopScript.Proofs.WindowCalls

/-! Calls nested in one another. A call that is made further up the register stack takes room there,
and in one and the same window calls have less and less reach. So the register stack bounds how
deeply calls are nested, but for one kind of call: the text of a value that is asked for to tell the
text of a value takes neither room nor reach, and nothing bounds how many of those there are. -/

namespace CoopScript

namespace World

variable {writes : UserdataId → Prop} {u v w : World}

/-- What changes leave of the functions that calls can be nested in. -/
structure Upholds (w v : World) : Prop where
  functions : w.Grows v
  methods : v.methods = w.methods
  reach : ∀ f, v.reach f = w.reach f

theorem Upholds.trans (first : u.Upholds v) (rest : v.Upholds w) : u.Upholds w :=
  ⟨first.functions.trans rest.functions, rest.methods.trans first.methods,
    fun f => (rest.reach f).trans (first.reach f)⟩

theorem Upholds.of_same (functions : v.functions = w.functions) (methods : v.methods = w.methods) : w.Upholds v := by
  refine ⟨(Extends.of_same functions).grows, methods, fun f => ?_⟩
  simp only [World.reach, World.callable, functions]

theorem Change.upholds (change : w.Change writes v) : w.Upholds v := by
  have idle {c : Callable} (iteration : c.IsIteration) : c.reach = 0 := by
    cases c <;> first | rfl | cases iteration
  cases change with
  | stored found spares | disk disk | opened h | logged log => exact .of_same rfl rfl
  | selected which u => cases which <;> exact .of_same rfl rfl
  | @created c iteration =>
    refine ⟨(Extends.addFunction w iteration).grows, rfl, fun f => ?_⟩
    rcases (Extends.addFunction w iteration).callable f with same | ⟨absent, iterates⟩
    · rw [reach, same, reach]
    · rw [reach, reach, idle iterates, callable_of_absent absent]
      rfl
  | @advanced f cursor found next =>
    refine ⟨setCallable_grows found next, rfl, fun g => ?_⟩
    rcases callable_advanced found next g with same | ⟨before, after⟩
    · rw [reach, same, reach]
    · rw [reach, after, reach, before]
      rfl

theorem Becomes.upholds (becomes : w.Becomes writes v) : w.Upholds v := by
  induction becomes with
  | refl => exact .of_same rfl rfl
  | tail _ change ih => exact ih.trans change.upholds

/-- Handles keep their methods. -/
theorem Wired.of_upholds (wired : w.Wired) (upholds : w.Upholds v) : v.Wired := by
  have kept : ∀ f ∈ w.methods, v.callable f = w.callable f := by
    intro f method
    apply upholds.functions.retains
    have member : w.callable f ∈ w.methods.map w.callable := List.mem_map_of_mem method
    rw [wired] at member
    simp only [List.mem_cons, List.not_mem_nil, or_false] at member
    rcases member with found | found | found | found <;> rw [found] <;> rfl
  rw [Wired, upholds.methods, List.map_congr_left kept]
  exact wired

/-- The world of a program: its functions are verified scripts and those of the library, and the
library is set up. -/
structure Equipped (w : World) : Prop where
  shipped : w.Shipped
  wired : w.Wired

theorem Equipped.of_upholds (equipped : w.Equipped) (upholds : w.Upholds v) : v.Equipped :=
  ⟨upholds.functions.shipped equipped.shipped, equipped.wired.of_upholds upholds⟩

/-- Functions are only added, and the methods of handles are left as they are. -/
private def Adds {α : Type} (op : StateM World α) : Prop :=
  ∀ w : World, (op w).2.methods = w.methods ∧ ∃ more, (op w).2.functions = w.functions ++ more

private theorem Adds.bind {α β : Type} {op : StateM World α} {next : α → StateM World β} (first : Adds op)
    (rest : ∀ a, Adds (next a)) : Adds (op >>= next) := by
  intro w
  obtain ⟨methods, some, added⟩ := first w
  obtain ⟨methods', more, added'⟩ := rest (op w).1 (op w).2
  refine ⟨methods'.trans methods, some ++ more, ?_⟩
  change (next (op w).1 (op w).2).2.functions = _
  rw [added', added, Array.append_assoc]

private theorem Adds.of_same {α : Type} {op : StateM World α}
    (same : ∀ w, (op w).2.methods = w.methods ∧ (op w).2.functions = w.functions) : Adds op :=
  fun w => ⟨(same w).1, #[], by rw [(same w).2, Array.append_empty]⟩

private theorem newTable_adds (list : List (String × Value)) : Adds (newTable list) := .of_same fun _ => ⟨rfl, rfl⟩

private theorem entries_adds (list : List (String × Builtin)) : Adds (entries list) := by
  have pure {α : Type} (a : α) : Adds (Pure.pure a : StateM World α) := .of_same fun _ => ⟨rfl, rfl⟩
  induction list with
  | nil => exact pure _
  | cons first rest ih =>
    have added : Adds (newFunction (.builtin first.2)) := fun w => ⟨rfl, #[.builtin first.2], Array.push_eq_append⟩
    rw [entries, List.mapM_cons]
    exact (added.bind fun _ => pure _).bind fun _ => ih.bind fun _ => pure _

private theorem environment_adds : Adds environment := by
  refine (entries_adds _).bind fun _ => Adds.bind ?_ fun _ => Adds.bind ?_ fun _ => newTable_adds _
  · exact (entries_adds _).bind fun _ => newTable_adds _
  · exact (entries_adds _).bind fun _ => Adds.bind (.of_same fun _ => ⟨rfl, rfl⟩) fun _ => newTable_adds _

theorem installFiles_wired (input output error : Handle) (w : World) : (installFiles input output error w).2.Wired := by
  have functions : (installFiles input output error w).2.functions = [.builtin .fileWrite, .builtin .fileRead,
      .builtin .fileFlush, .builtin .fileClose, .builtin .fileLines, .builtin .fileSeek, .builtin .fileSetvbuf,
      .builtin .fileTostring].foldl Array.push w.functions := rfl
  have methods : (installFiles input output error w).2.methods = [⟨w.functions.size⟩,
      ⟨(w.functions.push (.builtin .fileWrite)).size⟩,
      ⟨((w.functions.push (.builtin .fileWrite)).push (.builtin .fileRead)).size⟩,
      ⟨(((w.functions.push (.builtin .fileWrite)).push (.builtin .fileRead)).push (.builtin .fileFlush)).size⟩] := rfl
  rw [List.foldl_push_eq_append] at functions
  rw [Wired, methods]
  simp [callable, functions, Array.getD_eq_getD_getElem?, Nat.add_assoc]

/-- Setting the library up in a world of verified scripts makes it the world of a program. -/
theorem environment_equipped (input output error : Handle) {w : World} (shipped : w.Shipped) :
    (environment (installFiles input output error w).2).2.Equipped := by
  have wired := installFiles_wired input output error w
  refine ⟨environment_honest _ (installFiles_honest input output error w shipped), ?_⟩
  obtain ⟨methods, more, added⟩ := environment_adds (installFiles input output error w).2
  generalize (installFiles input output error w).2 = u at wired methods added
  rw [Wired, methods, ← wired]
  refine List.map_congr_left fun f method => ?_
  have there : f.index < u.functions.size := by
    by_contra beyond
    have absent := callable_of_absent (w := u) (f := f) (by simpa using beyond)
    have member : u.callable f ∈ u.methods.map u.callable := List.mem_map_of_mem method
    rw [wired, absent] at member
    simp at member
  simp only [callable, added, Array.getD_eq_getD_getElem?, Array.getElem?_append, there, if_true]

end World

theorem Activity.step_upholds (a : Activity) (c : Core) : c.world.Upholds (a.step c).2.world := by
  have becomes : c.world.Becomes (fun _ => True) (a.step c).2.world := a.step_becomes fun _ _ => trivial
  exact becomes.upholds

def Callable.isTostring : Callable → Bool
  | .builtin .tostring => true
  | _ => false

theorem Callable.isTostring_iff {c : Callable} : c.isTostring = true ↔ c.reach = 2 := by
  cases c with
  | builtin b => cases b <;> decide
  | _ => simp [isTostring, reach]

namespace World

variable {w v : World} {inner outer : Activation} {calls : List Activation}

/-- Two calls in one window, both for the text of a value. -/
def echo (w : World) (inner outer : Activation) : Bool :=
  inner.base = outer.base && (w.callable inner.function).isTostring && (w.callable outer.function).isTostring

/-- How many calls, innermost first, echo the one that they are nested in. -/
def echoes (w : World) : List Activation → Nat
  | inner :: outer :: calls => (if w.echo inner outer then 1 else 0) + w.echoes (outer :: calls)
  | _ => 0

/-- How a call can be nested in another one: it is made further up the register stack, or it has less
reach, or it echoes the other. -/
inductive Nests (w : World) (inner outer : Activation) : Prop where
  | above (further : outer.base.offset < inner.base.offset)
  | within (same : inner.base = outer.base) (less : w.reach inner.function < w.reach outer.function)
  | echo (echo : w.echo inner outer = true)

theorem echo_eq_true : w.echo inner outer = true ↔
    inner.base = outer.base ∧ w.reach inner.function = 2 ∧ w.reach outer.function = 2 := by
  simp only [World.echo, Bool.and_eq_true, decide_eq_true_eq, Callable.isTostring_iff, and_assoc, World.reach]

theorem Nests.of_reach (reach : ∀ f, v.reach f = w.reach f) (nests : w.Nests inner outer) : v.Nests inner outer := by
  cases nests with
  | above further => exact .above further
  | within same less => exact .within same (by rwa [reach, reach])
  | echo echo =>
    refine .echo ?_
    rwa [echo_eq_true, reach, reach, ← echo_eq_true]

theorem reach_le (w : World) (f : FunctionId) : w.reach f ≤ 4 := by
  unfold reach
  cases w.callable f with
  | builtin b => cases b <;> decide
  | _ => exact Nat.zero_le 4

/-- The height of a call, which grows towards the inner calls except at an echo. -/
def height (w : World) (call : Activation) : Nat := 5 * call.base.offset + (4 - w.reach call.function)

theorem Nests.height (nests : w.Nests inner outer) :
    w.height outer + 1 ≤ w.height inner + if w.echo inner outer then 1 else 0 := by
  have inside := w.reach_le inner.function
  have outside := w.reach_le outer.function
  simp only [World.height]
  cases nests with
  | above further => omega
  | within same less =>
    rw [same]
    omega
  | echo echo =>
    obtain ⟨same, reaches, reached⟩ := echo_eq_true.mp echo
    rw [if_pos echo, same, reaches, reached]

theorem length_le_height {first : Activation} (nested : (first :: calls).IsChain w.Nests) :
    (first :: calls).length ≤ w.height first + 1 + w.echoes (first :: calls) := by
  induction calls generalizing first with
  | nil => simp [echoes]
  | cons outer calls ih =>
    rw [List.isChain_cons_cons] at nested
    have climbs := nested.1.height
    have rest := ih nested.2
    rw [List.length_cons, echoes]
    omega

/-- The bound on the number of calls that are nested in one another, all with windows on the stack. -/
theorem length_le_of_nests {capacity : Nat} (nested : calls.IsChain w.Nests)
    (inside : ∀ call ∈ calls, call.base.offset ≤ capacity) : calls.length ≤ 5 * (capacity + 1) + w.echoes calls := by
  cases calls with
  | nil => exact Nat.zero_le _
  | cons first calls =>
    have bound := length_le_height nested
    have offset := inside first List.mem_cons_self
    simp only [height] at bound
    omega

end World

namespace Builtin

variable {b : Builtin} {w v : World} {base : Window} {held : List Value} {a : Activity}

theorem Serves.window (serves : b.Serves w base held a) : ∀ inner ∈ a.window?, inner = base := by
  cases serves <;> rintro _ ⟨⟩ <;> rfl

theorem Serves.reach_pos {f : FunctionId} {inner : Window} (serves : b.Serves w base held (.enter f inner)) :
    0 < b.reach := by
  cases serves with
  | replacing => decide
  | telling own => rcases own with rfl | rfl <;> decide
  | forwarding own => exact Nat.lt_of_lt_of_eq Nat.one_pos own.symm

/-- Only functions that go on afterwards ask for anything. -/
theorem Serves.isResumable {r : Request} {inner : Window} (serves : b.Serves w base held (.dispatch r inner)) :
    b.isResumable = true := by
  cases serves with
  | replacement | lookup => rfl
  | text own | handler own => rcases own with rfl | rfl <;> rfl
  | method own => cases b <;> first | rfl | cases own

theorem Comes.of_methods {a : Action} (same : v.methods = w.methods) (comes : b.Comes w a) : b.Comes v a := by
  cases comes with
  | ended immediate => exact .ended immediate
  | suspended own reason s => exact .suspended own reason s
  | call own plain f s => exact .call own plain f s
  | index own object key s => exact .index own object key s
  | text own v s => exact .text own v s
  | forward own method receiver s => exact .forward own (same ▸ method) receiver s

end Builtin

/-- Verified code has a register for the function that it calls. -/
theorem Proto.callee_of_verified {p : Proto} (verified : p.verified = .ok p) {pc base nresults : Nat}
    (made : p.code[pc]?.bind Instr.pending? = some (.call base nresults)) : base + 1 ≤ p.regs := by
  obtain ⟨instr, found, waits⟩ := Option.bind_eq_some_iff.mp made
  cases instr with
  | call base' nargs nresults' =>
    cases waits
    exact registers_of_verified verified found (by simp [Instr.operands])
  | getField _ _ _ => cases waits
  | _ => cases waits

namespace Activity

open CoopScript.Core

variable {a : Activity} {call outer : Activation} {c d : Core} {move : Move} {w : World} {s : RegisterStack}

/-- What is done for the call that waits: it is done further up the register stack, or it serves a
library function in its own window, or it is a call that is properly nested. -/
inductive Serves (w : World) (s : RegisterStack) (outer : Activation) : Activity → Prop where
  | returned : Serves w s outer .returned
  | above {a : Activity} {inner : Window} (own : a.window? = some inner) (further : outer.base.offset < inner.offset) :
      Serves w s outer a
  | library {a : Activity} {b : Builtin} (found : w.callable outer.function = .builtin b)
      (serves : b.Serves w outer.base (outer.base.values s) a) : Serves w s outer a
  | nested {a : Activity} {call : Activation} (own : a.activation? = some call) (nests : w.Nests call outer) :
      Serves w s outer a

theorem Serves.dispatched {r : Request} {base : Window} (serves : (dispatch r base).Serves c.world c.context.stack outer)
    (served : r.serve base c = (.ok a, d)) : a.Serves d.world d.context.stack outer := by
  cases serves with
  | nested own => cases own
  | above own further =>
    cases own
    cases r.serve_served (congrArg Prod.fst served) with
    | returned => exact .returned
    | call f | handler v value asked => exact .above rfl further
  | library found serves =>
    have world : d.world = c.world := by
      have kept := congrArg (·.2.world) (r.serve_local base c c ⟨rfl, rfl⟩ rfl)
      rw [served] at kept
      exact kept
    obtain rfl : base = outer.base := serves.window base rfl
    refine .library ?_ (r.serve_serves serves served)
    rw [world]
    exact found

/-- A call that goes on after its first step is properly nested. -/
theorem Serves.nests (serves : a.Serves c.world c.context.stack outer) (wired : c.world.Wired)
    (own : a.activation? = some call) (stepped : (a.step c).1 = .ok move) (ongoing : move ≠ .go .returned) :
    c.world.Nests call outer := by
  cases serves with
  | returned => cases own
  | above window further =>
    cases window.symm.trans (window?_of_activation? own)
    exact .above further
  | nested same nests =>
    cases own.symm.trans same
    exact nests
  | library found serves =>
    -- in the window of a library function only the first step of a call serves it
    obtain ⟨f, rfl⟩ : ∃ f, a = .enter f outer.base := by
      cases serves <;> first | exact ⟨_, rfl⟩ | cases own
    cases own
    have pos := serves.reach_pos
    have outside : c.world.reach outer.function = Callable.reach (.builtin _) := congrArg Callable.reach found
    have idle (none : c.world.reach f = 0) : c.world.Nests ⟨f, outer.base⟩ outer := by
      refine .within rfl ?_
      rw [none, outside]
      exact pos
    cases callee : c.world.callable f with
    | script p | «matches» cursor | lines file formats | host h => exact idle (congrArg Callable.reach callee)
    | builtin b =>
      rw [step_enter, callee, Callable.invoke_builtin] at stepped
      cases answered : b.invoke (outer.base.values c.context.stack) c.world with
      | mk result v =>
        rw [answered] at stepped
        cases result with
        | error e => cases stepped
        | ok action =>
          rcases serves.settles wired callee (congrArg Prod.fst answered) with immediate | less | ⟨same, rfl⟩
          · refine absurd ?_ ongoing
            rcases immediate with rfl | ⟨results, rfl⟩
            · exact (Except.ok.inj stepped).symm
            · simp only [performed, Action.perform, bind_apply] at stepped
              split at stepped <;> cases stepped
              rfl
          · refine .within rfl ?_
            rw [outside, World.reach, callee]
            exact less
          · subst same
            refine .echo (World.echo_eq_true.mpr ⟨rfl, congrArg Callable.reach callee, ?_⟩)
            exact outside

/-- Only a call waits or is suspended. -/
theorem activation?_of_waiting (stepped : (a.step c).1 = .ok move) (waits : ∀ next, move ≠ .go next) :
    ∃ call, a.activation? = some call := by
  cases a with
  | enter _ _ | resume _ _ _ | running _ _ _ => exact ⟨_, rfl⟩
  | returned => exact absurd (Except.ok.inj stepped).symm (waits _)
  | dispatch r base =>
    simp only [step, bind_apply] at stepped
    split at stepped
    · exact absurd (Except.ok.inj stepped).symm (waits _)
    · cases stepped

/-- What goes on is a request that is served, or a call that returns or has its script at work. -/
theorem step_went {next : Activity} (working : a ≠ .returned) (stepped : a.step c = (.ok (.go next), d)) :
    (∃ r base, a = .dispatch r base ∧ r.serve base c = (.ok next, d)) ∨
      ∃ call, a.activation? = some call ∧ (next = .returned ∨ ∃ pc, next = .running call.function call.base pc) := by
  cases own : a.activation? with
  | some call =>
    refine .inr ⟨call, rfl, ?_⟩
    cases step_leads own (congrArg Prod.fst stepped) with
    | returned => exact .inl rfl
    | running pc => exact .inr ⟨pc, rfl⟩
  | none =>
    cases a with
    | enter _ _ | resume _ _ _ | running _ _ _ => cases own
    | returned => exact absurd rfl working
    | dispatch r base =>
      refine .inl ⟨r, base, rfl, ?_⟩
      simp only [step, bind_apply] at stepped
      rcases served : r.serve base c with ⟨_ | _, _⟩ <;> rw [served] at stepped <;> cases stepped
      rfl

private theorem asks_of_performed {b : Builtin} {f : FunctionId} {base : Window} {outcome : Except Failure Action × World}
    (comes : ∀ action, outcome.1 = .ok action → b.Comes outcome.2 action) {frame : Frame} {r : Request} {inner : Window}
    (performed : c.performed f base outcome = (.ok (.call frame r inner), d)) :
    inner = base ∧ b.Serves d.world base (base.values d.context.stack) (.dispatch r base) := by
  obtain ⟨_ | action, v⟩ := outcome
  · cases performed
  · exact Action.perform_serves (c := { c with world := v }) (comes action rfl) performed

private theorem not_call_of_yields {f : FunctionId} {base : Window} {op : WorldM Action} (yields : Builtin.Yields op)
    {frame : Frame} {r : Request} {inner : Window}
    (performed : c.performed f base (op c.world) = (.ok (.call frame r inner), d)) : False := by
  cases answered : op c.world with
  | mk result v =>
    rw [answered] at performed
    cases result with
    | error e => cases performed
    | ok action =>
      rcases yields _ _ (congrArg Prod.fst answered) with (rfl | ⟨results, rfl⟩) | ⟨reason, s, rfl⟩
      · cases performed
      · simp only [Core.performed, Action.perform, bind_apply] at performed
        split at performed <;> cases performed
      · cases performed

private theorem library_serves {f : FunctionId} {base : Window} {b : Builtin} {result : Except Failure Move}
    (stepped : a.step c = (result, d)) (found : c.world.callable f = .builtin b)
    (inside : base.offset ≤ c.context.stack.capacity) {r : Request} {inner : Window}
    (asks : inner = base ∧ b.Serves d.world base (base.values d.context.stack) (.dispatch r base)) :
    inner.offset ≤ d.context.stack.capacity ∧ (dispatch r inner).Serves d.world d.context.stack ⟨f, base⟩ := by
  have sustains := step_sustains stepped
  obtain ⟨rfl, serves⟩ := asks
  refine ⟨sustains.capacity ▸ inside, .library ?_ serves⟩
  change d.world.callable f = _
  rw [sustains.retains f (by rw [found]; exact serves.isResumable), found]

private theorem enter_serves {f : FunctionId} {base : Window} (works : (enter f base).Runs Callable.Shipped c.world)
    (inside : base.offset ≤ c.context.stack.capacity) {frame : Frame} {r : Request} {inner : Window}
    (entered : (enter f base).step c = (.ok (.call frame r inner), d)) :
    inner.offset ≤ d.context.stack.capacity ∧ (dispatch r inner).Serves d.world d.context.stack ⟨f, base⟩ := by
  have stepped := entered
  rw [step_enter] at stepped
  cases callee : c.world.callable f with
  | script p =>
    rw [callee] at stepped
    simp only [Callable.invoke, bind_apply, getStack_apply] at stepped
    split at stepped <;> cases stepped
  | builtin b =>
    rw [callee, Callable.invoke_builtin] at stepped
    refine library_serves entered callee inside (asks_of_performed ?_ stepped)
    intro action answered
    have becomes : c.world.Becomes (fun _ => True) (b.invoke (base.values c.context.stack) c.world).2 :=
      World.invoke_becomes fun _ _ _ => trivial
    exact (Builtin.invoke_comes answered).of_methods becomes.upholds.methods
  | «matches» cursor =>
    rw [callee] at stepped
    have yields : Builtin.Yields (pure (.ret cursor.advance.1)) := .ret _
    let moved : Core := { c with world := c.world.setCallable f (.matches cursor.advance.2) }
    have performed : moved.performed f base ((pure (.ret cursor.advance.1) : WorldM Action) moved.world) =
        (.ok (.call frame r inner), d) := stepped
    exact (not_call_of_yields yields performed).elim
  | lines file formats =>
    rw [callee, Callable.invoke_lines] at stepped
    exact (not_call_of_yields (.nextItems file formats) stepped).elim
  | host h =>
    have shipped : (c.world.callable f).Shipped := works.allowed f rfl
    rw [callee] at shipped
    cases shipped

private theorem resume_serves {f : FunctionId} {base : Window} {s : Saved}
    (supported : (resume f base s).Supported c.world c.context.stack) (inside : base.offset ≤ c.context.stack.capacity)
    {frame : Frame} {r : Request} {inner : Window}
    (resumed : (resume f base s).step c = (.ok (.call frame r inner), d)) :
    inner.offset ≤ d.context.stack.capacity ∧ (dispatch r inner).Serves d.world d.context.stack ⟨f, base⟩ := by
  have expected := supported.expected
  have stepped := resumed
  rw [step_resume] at stepped
  cases callee : c.world.callable f with
  | script p =>
    rw [callee] at stepped
    cases s with
    | script pc pending =>
      simp only [Callable.resume, bind_apply, getStack_apply] at stepped
      split at stepped <;> cases stepped
    | _ => cases stepped
  | builtin b =>
    rw [callee] at expected
    rw [callee, Callable.resume_builtin] at stepped
    exact library_serves resumed callee inside
      (asks_of_performed (fun _ answered => Builtin.resume_comes expected answered) stepped)
  | lines file formats =>
    rw [callee] at expected stepped
    cases s with
    | reading reads =>
      rw [Callable.resume_lines] at stepped
      exact (not_call_of_yields (.readItems _ _ _ _) stepped).elim
    | _ => cases expected
  | «matches» _ | host _ =>
    rw [callee] at expected
    cases s <;> cases expected

/-- Verified code has a register for what it calls, or for what a lookup gives. -/
private theorem running_serves {f : FunctionId} {base : Window} {pc : Nat}
    (works : (running f base pc).Runs Callable.Shipped c.world)
    (supported : (running f base pc).Supported c.world c.context.stack) {frame : Frame} {r : Request} {inner : Window}
    (stepped : (running f base pc).step c = (.ok (.call frame r inner), d)) :
    inner.offset ≤ d.context.stack.capacity ∧ (dispatch r inner).Serves d.world d.context.stack ⟨f, base⟩ := by
  have retains := (step_sustains stepped).retains
  have proceeds := step_proceeds works supported
  have leads := step_leads rfl (congrArg Prod.fst stepped)
  obtain ⟨p, found, framed⟩ := supported
  rw [stepped] at proceeds
  cases leads with
  | waits _ own started awaits =>
    obtain ⟨f, base, state⟩ := frame
    cases own
    obtain ⟨pc', pending, rfl, made, rfl⟩ := awaits.script p (World.proto?_eq_some.mpr found)
    have continues : (d.world.callable f).Continues _ base _ := proceeds.1 _ rfl
    rw [retains f (by rw [found]; rfl), found] at continues
    have room := continues.room p rfl
    have fits := continues.fits p _ pending rfl rfl
    suffices beyond : base.offset < (pending.window p base).offset ∧ (pending.window p base).offset ≤ base.offset + p.regs from
      ⟨Nat.le_trans beyond.2 room, .above rfl beyond.1⟩
    cases pending with
    | index dst =>
      simp only [Pending.Fits] at fits
      simp only [Pending.window, Proto.scratch, Window.shift]
      omega
    | call first nresults =>
      have verified : (c.world.callable f).Shipped := works.allowed f rfl
      rw [found] at verified
      have above := Proto.callee_of_verified verified made
      simp only [Pending.window, Window.shift]
      omega

/-- A call that waits does so for what is done in its own window, or further up. -/
theorem step_serves (works : a.Runs Callable.Shipped c.world) (supported : a.Supported c.world c.context.stack)
    (own : a.activation? = some call) (inside : call.base.offset ≤ c.context.stack.capacity) {frame : Frame} {r : Request}
    {inner : Window} (stepped : a.step c = (.ok (.call frame r inner), d)) :
    inner.offset ≤ d.context.stack.capacity ∧ (dispatch r inner).Serves d.world d.context.stack call := by
  cases a with
  | returned | dispatch _ _ => cases own
  | enter f base =>
    cases own
    exact enter_serves works inside stepped
  | resume f base s =>
    cases own
    exact resume_serves supported inside stepped
  | running f base pc =>
    cases own
    exact running_serves works supported stepped

end Activity

namespace Machine

/-- The calls that are nested in one another, innermost first. -/
def nested (m : Machine) : List Activation := m.activity.activation?.toList ++ m.frames.map Frame.activation

/-- The calls of the machine are properly nested, and what is done serves the one that waits for it. -/
structure Nested (m : Machine) : Prop where
  sound : m.Holds .sound []
  equipped : m.core.world.Equipped
  linked : (m.frames.map Frame.activation).IsChain m.core.world.Nests
  inside : ∀ call ∈ m.frames.map Frame.activation, call.base.offset ≤ m.core.context.stack.capacity
  reaches : ∀ base ∈ m.activity.window?, base.offset ≤ m.core.context.stack.capacity
  serves : ∀ outer ∈ (m.frames.map Frame.activation).head?, m.activity.Serves m.core.world m.core.context.stack outer

namespace Nested

variable {m : Machine}

theorem length_le (nested : m.Nested) : m.nested.length ≤
    5 * (m.core.context.stack.capacity + 1) + 1 + m.core.world.echoes m.nested := by
  have bound := World.length_le_of_nests nested.linked nested.inside
  unfold Machine.nested
  cases m.activity.activation? with
  | none =>
    simp only [Option.toList_none, List.nil_append]
    omega
  | some call =>
    have fewer : m.core.world.echoes (m.frames.map Frame.activation) ≤
        m.core.world.echoes (call :: m.frames.map Frame.activation) := by
      cases m.frames.map Frame.activation with
      | nil => exact Nat.zero_le _
      | cons outer calls => exact Nat.le_add_left _ _
    simp only [Option.toList_some, List.cons_append, List.nil_append, List.length_cons]
    omega

private theorem linked_of_step {calls : List Activation} {c d : Core} {a : Activity} {result : Except Failure Move}
    (linked : calls.IsChain c.world.Nests) (stepped : a.step c = (result, d)) : calls.IsChain d.world.Nests := by
  have upholds := a.step_upholds c
  rw [stepped] at upholds
  exact linked.imp fun _ _ nests => nests.of_reach upholds.reach

/-- A call that begins to wait, or is suspended, is properly nested in those that wait already. -/
private theorem linked_waiting (nested : m.Nested) {call : Activation} (own : m.activity.activation? = some call)
    {move : Move} {d : Core} (stepped : m.activity.step m.core = (.ok move, d)) (ongoing : move ≠ .go .returned) :
    (call :: m.frames.map Frame.activation).IsChain d.world.Nests := by
  refine List.isChain_cons.mpr ⟨?_, linked_of_step nested.linked stepped⟩
  intro outer head
  have nests := (nested.serves outer head).nests nested.equipped.wired own (congrArg Prod.fst stepped) ongoing
  have upholds := m.activity.step_upholds m.core
  rw [stepped] at upholds
  exact nests.of_reach upholds.reach

private theorem inside_waiting (nested : m.Nested) {call : Activation} (own : m.activity.activation? = some call)
    {result : Except Failure Move} {d : Core} (stepped : m.activity.step m.core = (result, d)) :
    ∀ other ∈ call :: m.frames.map Frame.activation, other.base.offset ≤ d.context.stack.capacity := by
  rw [(Activity.step_sustains stepped).capacity]
  exact List.forall_mem_cons.mpr ⟨nested.reaches _ (Activity.window?_of_activation? own), nested.inside⟩

private theorem equipped_of_step (nested : m.Nested) {result : Except Failure Move} {d : Core}
    (stepped : m.activity.step m.core = (result, d)) : d.world.Equipped := by
  have upholds := m.activity.step_upholds m.core
  rw [stepped] at upholds
  exact nested.equipped.of_upholds upholds

/-- The call that goes on is nested in the next one, as it was while it waited. -/
private theorem next_returned (nested : m.Nested) {frame : Frame} {callers pending : List Frame}
    (waiting : m.frames = frame :: (callers ++ pending))
    (sound : { m with activity := frame.activity, callers, pending }.Holds .sound []) :
    { m with activity := frame.activity, callers, pending }.Nested := by
  have linked := nested.linked
  have inside := nested.inside
  rw [waiting, List.map_cons] at linked inside
  have own : frame.activity.activation? = some frame.activation := by
    obtain ⟨f, base, state⟩ := frame
    cases state <;> rfl
  refine ⟨sound, nested.equipped, (List.isChain_cons.mp linked).2, (List.forall_mem_cons.mp inside).2, ?_, ?_⟩
  · intro base window
    cases window.symm.trans (Activity.window?_of_activation? own)
    exact (List.forall_mem_cons.mp inside).1
  · intro outer head
    exact .nested own ((List.isChain_cons.mp linked).1 outer head)

private theorem next_went (nested : m.Nested) {a : Activity} {core : Core} (working : m.activity ≠ .returned)
    (stepped : m.activity.step m.core = (.ok (.go a), core)) (sound : { m with core, activity := a }.Holds .sound []) :
    { m with core, activity := a }.Nested := by
  have equipped := nested.equipped_of_step stepped
  have inside := nested.inside
  have reaches := nested.reaches
  rw [← (Activity.step_sustains stepped).capacity] at inside reaches
  have linked := linked_of_step nested.linked stepped
  rcases Activity.step_went working stepped with ⟨r, base, dispatch, served⟩ | ⟨call, own, returned | ⟨pc, running⟩⟩
  · rw [dispatch] at reaches
    refine ⟨sound, equipped, linked, inside, ?_, ?_⟩
    · intro held window
      cases r.serve_served (congrArg Prod.fst served) with
      | returned => cases window
      | call | handler => exact reaches held window
    · intro outer head
      have serves := nested.serves outer head
      rw [dispatch] at serves
      exact serves.dispatched served
  · subst returned
    exact ⟨sound, equipped, linked, inside, by simp [Activity.window?], fun _ _ => .returned⟩
  · subst running
    have chain := nested.linked_waiting own stepped (by simp)
    refine ⟨sound, equipped, linked, inside, ?_, ?_⟩
    · rintro _ ⟨⟩
      exact reaches _ (Activity.window?_of_activation? own)
    · intro outer head
      exact .nested rfl ((List.isChain_cons.mp chain).1 outer head)

private theorem next_called (nested : m.Nested) {frame : Frame} {r : Request} {inner : Window} {core : Core}
    (stepped : m.activity.step m.core = (.ok (.call frame r inner), core))
    (sound : { m with core, activity := .dispatch r inner, callers := frame :: m.callers }.Holds .sound []) :
    { m with core, activity := .dispatch r inner, callers := frame :: m.callers }.Nested := by
  obtain ⟨call, own⟩ := Activity.activation?_of_waiting (congrArg Prod.fst stepped) (by simp)
  have same : frame.activation = call := by
    cases Activity.step_leads own (congrArg Prod.fst stepped) with
    | waits _ same => exact same
  have linked := nested.linked_waiting own stepped (by simp)
  have inside := nested.inside_waiting own stepped
  rw [← same] at linked inside
  obtain ⟨room, serves⟩ := Activity.step_serves (.of_shipped nested.equipped.shipped _) nested.sound.activity own
    (nested.reaches _ (Activity.window?_of_activation? own)) stepped
  refine ⟨sound, nested.equipped_of_step stepped, linked, inside, ?_, ?_⟩
  · rintro _ ⟨⟩
    exact room
  · rintro _ ⟨⟩
    rw [same]
    exact serves

theorem next {next : Machine} (nested : m.Nested) (moved : m.step = .inl next) : next.Nested := by
  have ongoing : m.activity = .returned → m.frames ≠ [] := by
    intro returned none
    rw [step_finished returned none] at moved
    cases moved
  have sound := nested.sound.next (.of_shipped nested.equipped.shipped m.activity) ongoing moved
  cases Step.of_step moved with
  | returned _ waiting => exact nested.next_returned waiting sound
  | went working stepped => exact nested.next_went working stepped sound
  | called _ stepped => exact nested.next_called stepped sound

/-- A suspension saves the calls as they are nested. -/
theorem restarted {paused : Machine} (nested : m.Nested) {reason : SuspendReason}
    (halted : m.step = .inr (.paused reason, paused)) : paused.restarted.Nested := by
  have works := Activity.Runs.of_shipped nested.equipped.shipped m.activity
  have sound := nested.sound.restarted works halted (v := paused.core.world) fun _ _ => rfl
  cases Halted.of_step halted with
  | @paused _ frame core working stepped lines =>
    obtain ⟨call, own⟩ := Activity.activation?_of_waiting (congrArg Prod.fst stepped) (by simp)
    have same : frame.activation = call := by
      cases Activity.step_leads own (congrArg Prod.fst stepped) with
      | suspended _ same => exact same
    have linked := nested.linked_waiting own stepped (by simp)
    have inside := nested.inside_waiting own stepped
    rw [← same] at linked inside
    have logged : core.world.Upholds { core.world with log := core.world.log ++ lines } := .of_same rfl rfl
    refine ⟨sound, (nested.equipped_of_step stepped).of_upholds logged, ?_, inside,
      by simp [Machine.restarted, Activity.window?], fun _ _ => .returned⟩
    exact linked.imp fun _ _ nests => nests.of_reach logged.reach

theorem run {fuel : Nat} {reason : SuspendReason} {paused : Machine} (nested : m.Nested)
    (ran : m.run fuel = some (.paused reason, paused)) : paused.restarted.Nested := by
  induction fuel generalizing m with
  | zero => cases ran
  | succ fuel ih =>
    cases moved : m.step with
    | inl next =>
      rw [run_inl moved] at ran
      exact ih (nested.next moved) ran
    | inr result =>
      obtain ⟨_, _⟩ := result
      rw [run_inr moved] at ran
      cases ran
      exact nested.restarted moved

theorem observed {n : Nat} {moment : Machine} (nested : m.Nested) (seen : moment ∈ m.observed (fun m => [m]) n) :
    moment.Nested ∧ m.core.Sustains moment.core := by
  obtain ⟨_, held, here⟩ := exists_of_mem_observed (P := fun moment => moment.Nested ∧ m.core.Sustains moment.core)
    (fun held moved => ⟨held.1.next moved, held.2.trans (step_sustains moved)⟩) ⟨nested, .refl _⟩ seen
  rw [List.mem_singleton.mp here]
  exact held

end Nested

theorem run_upholds {m last : Machine} {halt : Halt} {fuel : Nat} (ran : m.run fuel = some (halt, last)) :
    m.core.world.Upholds last.core.world :=
  run_preserves (R := fun c d => c.world.Upholds d.world) (fun _ => .of_same rfl rfl) World.Upholds.trans
    Activity.step_upholds (fun _ _ => .of_same rfl rfl) ran

end Machine

namespace Executor

/-- The states of an executor that runs the calls of a program, with the world it is in. Meanwhile
others may do in that world what verified scripts and library functions do. -/
inductive Employed : World → Executor → Prop where
  | fresh {w : World} {config : EngineConfig} {e : Executor} (equipped : w.Equipped)
      (made : Executor.new config = .ok e) : Employed w e
  | pushed {w : World} {e : Executor} (before : Employed w e) (f : FunctionId) (args : List Value) :
      Employed w (e.pushCall f args).2
  | drained {w v : World} {e after : Executor} {fuel : Nat} {result : Except Failure Drain} (before : Employed w e)
      (ran : drain fuel w e = some (result, v, after)) : Employed v after
  | taken {w : World} {e : Executor} (before : Employed w e) : Employed w e.takeResults.2
  | meanwhile {w v : World} {e : Executor} (before : Employed w e) (others : w.Becomes (fun _ => True) v) : Employed v e

/-- The frames of the pending call are those of calls that are properly nested. -/
structure Nested (w : World) (e : Executor) : Prop where
  reachable : Reachable w e
  equipped : w.Equipped
  linked : (e.callStack.map Frame.activation).IsChain w.Nests
  inside : ∀ call ∈ e.callStack.map Frame.activation, call.base.offset ≤ e.context.stack.capacity

variable {w v : World} {e : Executor}

theorem Nested.machine (nested : e.Nested w) : (e.machine w).Nested := by
  have holds := Begins.drain.holds nested.reachable.sound
  have clear : (e.machine w).core.context.stack.Clear := holds.state
  exact ⟨⟨clear.fits, holds.activity, holds.frames⟩, nested.equipped, nested.linked, nested.inside,
    by simp [Executor.machine, Activity.window?], fun _ _ => .returned⟩

theorem Nested.of_idle (reachable : Reachable w e) (equipped : w.Equipped) (idle : e.callStack = []) : e.Nested w := by
  refine ⟨reachable, equipped, ?_, ?_⟩ <;> simp [idle]

theorem Nested.drain {fuel : Nat} {result : Except Failure Drain} {after : Executor} (nested : e.Nested w)
    (ran : Executor.drain fuel w e = some (result, v, after)) : after.Nested v := by
  have reachable := Reachable.drained nested.reachable (involved_of_shipped nested.equipped.shipped e fuel) ran
  simp only [Executor.drain] at ran
  split at ran
  · cases ran
    exact nested
  · cases rested : (e.machine w).run fuel with
    | none =>
      rw [rested] at ran
      cases ran
    | some halted =>
      obtain ⟨halt, last⟩ := halted
      rw [rested] at ran
      cases ran
      have equipped := nested.equipped.of_upholds (Machine.run_upholds rested)
      cases halt with
      | finished | failed _ => exact .of_idle reachable equipped rfl
      | paused reason =>
        have saved := nested.machine.run rested
        exact ⟨reachable, equipped, saved.linked, saved.inside⟩

theorem Employed.nested (employed : Employed w e) : e.Nested w := by
  induction employed with
  | fresh equipped made =>
    refine .of_idle (.fresh made) equipped ?_
    simp only [Executor.new] at made
    cases stack : RegisterStack.new _ with
    | error _ =>
      rw [stack] at made
      cases made
    | ok stack' =>
      rw [stack] at made
      cases made
      rfl
  | @pushed w e before f args ih =>
    have reachable := Reachable.pushed ih.reachable f args
    by_cases resting : e.callStack = []
    · rw [pushCall_of_resting resting] at reachable ⊢
      split at reachable
      · next full =>
        rw [if_pos full]
        exact .of_idle reachable ih.equipped resting
      · next room =>
        rw [if_neg room]
        exact ⟨reachable, ih.equipped, by simp, by simp [Frame.activation]⟩
    · rw [pushCall_of_pending resting]
      exact ih
  | drained before ran ih => exact ih.drain ran
  | @taken w e before ih =>
    have capacity := RegisterStack.clear_capacity e.context.stack 0 e.context.stack.top
    have reachable := Reachable.taken ih.reachable
    simp only [takeResults] at reachable ⊢
    split at reachable
    · next finished =>
      rw [if_pos finished]
      refine ⟨reachable, ih.equipped, ih.linked, ?_⟩
      intro call member
      exact Nat.le_trans (ih.inside call member) (Nat.le_of_eq capacity.symm)
    · next other =>
      rw [if_neg other]
      exact ih
  | meanwhile before others ih =>
    have upholds := others.upholds
    exact ⟨.meanwhile ih.reachable upholds.functions.retains, ih.equipped.of_upholds upholds,
      ih.linked.imp fun _ _ nests => nests.of_reach upholds.reach, ih.inside⟩

/-- At every moment of a drain, the number of calls that are nested in one another is bounded by the
capacity of the register stack, if calls for the text of a value that echo another such call are not
counted. -/
theorem Employed.nested_le (employed : Employed w e) {n : Nat} {m : Machine}
    (moment : m ∈ (e.machine w).observed (fun m => [m]) n) :
    m.nested.length ≤ 5 * (e.context.stack.capacity + 1) + 1 + m.core.world.echoes m.nested := by
  obtain ⟨nested, sustains⟩ := employed.nested.machine.observed moment
  have capacity : m.core.context.stack.capacity = e.context.stack.capacity := sustains.capacity
  rw [← capacity]
  exact nested.length_le

/-- A table that tells its text by asking for its text. -/
private def selfTelling : World where
  tables := #[{ metatable := some ⟨1⟩ }, Table.setText {} "__tostring" (.function ⟨0⟩)]
  functions := #[.builtin .tostring, .builtin .fileWrite, .builtin .fileRead, .builtin .fileFlush, .builtin .fileClose]
  io := { (default : IoState) with write := ⟨1⟩, read := ⟨2⟩, flush := ⟨3⟩, close := ⟨4⟩ }

private def oneSlot : Executor := { context := { stack := ⟨#[.nil], 0⟩, budget := Budget.new {} } }

private def telling : Executor := (oneSlot.pushCall ⟨0⟩ [.table ⟨0⟩]).2

/-- The frame that waits for the text. -/
private def textAwaited : Frame := ⟨⟨0⟩, ⟨0⟩, some .unit⟩

private def asking (a : Activity) (depth : Nat) : Machine where
  core := (telling.machine selfTelling).core
  activity := a
  callers := List.replicate depth textAwaited

private theorem asking_called (depth : Nat) : (asking (.enter ⟨0⟩ ⟨0⟩) depth).step =
    .inl (asking (.dispatch (.text (.table ⟨0⟩)) ⟨0⟩) (depth + 1)) := by
  cbv

private theorem asking_served (depth : Nat) : (asking (.dispatch (.text (.table ⟨0⟩)) ⟨0⟩) depth).step =
    .inl (asking (.dispatch (.value (.function ⟨0⟩)) ⟨0⟩) depth) := by
  cbv

private theorem asking_again (depth : Nat) : (asking (.dispatch (.value (.function ⟨0⟩)) ⟨0⟩) depth).step =
    .inl (asking (.enter ⟨0⟩ ⟨0⟩) depth) := by
  cbv

private theorem asking_deeper (depth more : Nat) : asking (.enter ⟨0⟩ ⟨0⟩) (depth + more) ∈
    (asking (.enter ⟨0⟩ ⟨0⟩) depth).observed (fun m => [m]) (3 * more + 1) := by
  induction more generalizing depth with
  | zero => exact Machine.mem_observed_now (List.mem_singleton.mpr rfl) 0
  | succ more ih =>
    have deeper := ih (depth + 1)
    rw [Nat.add_right_comm, Nat.add_assoc] at deeper
    exact Machine.mem_observed_later (asking_called depth) (Machine.mem_observed_later (asking_served _)
      (Machine.mem_observed_later (asking_again _) deeper))

private theorem employed_telling : Employed selfTelling telling := by
  have shipped : selfTelling.Shipped := by decide
  have made : Executor.new { stackCapacity := 1 } = .ok oneSlot := rfl
  exact .pushed (.fresh ⟨shipped, rfl⟩ made) _ _

private theorem asking_observed (depth : Nat) : asking (.enter ⟨0⟩ ⟨0⟩) depth ∈
    (telling.machine selfTelling).observed (fun m => [m]) (3 * depth + 2) := by
  have entered : (telling.machine selfTelling).step = .inl (asking (.enter ⟨0⟩ ⟨0⟩) 0) := by cbv
  have deeper := asking_deeper 0 depth
  rw [Nat.zero_add] at deeper
  exact Machine.mem_observed_later entered deeper

private theorem nested_asking (depth : Nat) : (asking (.enter ⟨0⟩ ⟨0⟩) depth).nested.length = depth + 1 := by
  simp [Machine.nested, asking, Machine.frames, Activity.activation?, Executor.machine, telling]

/-- With a single slot on the register stack, thirteen calls are within the bound because twelve of them
are echoes. -/
theorem Employed.nested_le_telling : ∃ m ∈ (telling.machine selfTelling).observed (fun m => [m]) 38,
    m.nested.length = 13 ∧ m.core.world.echoes m.nested = 12 ∧
      m.nested.length ≤ 5 * (1 + 1) + 1 + m.core.world.echoes m.nested :=
  ⟨_, asking_observed 12, nested_asking 12, by cbv, employed_telling.nested_le (asking_observed 12)⟩

/-- Echoes are not bounded by the capacity: with a single slot on the register stack, calls for the
text of a value are nested as deeply as one likes. -/
theorem nested_unbounded : ¬∃ bound : Nat → Nat, ∀ (w : World) (e : Executor), Employed w e →
    ∀ (n : Nat) (m : Machine), m ∈ (e.machine w).observed (fun m => [m]) n →
      m.nested.length ≤ bound e.context.stack.capacity := by
  rintro ⟨bound, bounded⟩
  have deep := bounded selfTelling telling employed_telling _ _ (asking_observed (bound telling.context.stack.capacity))
  rw [nested_asking] at deep
  omega

end Executor

end CoopScript
