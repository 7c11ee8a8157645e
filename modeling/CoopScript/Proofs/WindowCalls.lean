import CoopScript.Environment
import CoopScript.Proofs.CounterpartAnswers
import CoopScript.Proofs.FileCalls
import CoopScript.Proofs.LibraryCallbacks
import CoopScript.Proofs.NativeCalls
import CoopScript.Proofs.WorldChanges

/-! Calls that library functions make in their own window. Such a call takes no room on the register
stack, so what keeps these calls from being nested without end is who may call whom: the function
that is called finds arguments with which it asks for less than its caller did. Only the text of a
value can be asked for in a call that was itself made for the text of a value. -/

namespace CoopScript

/-- A value that refers to no object. -/
def Value.IsPlain : Value → Prop
  | .table _ | .function _ | .userdata _ => False
  | _ => True

theorem Pattern.Found.captures_plain (found : Pattern.Found) (text : Array Char) :
    ∀ v ∈ found.captures text, v.IsPlain := by
  intro v member
  have shared := found.captures_shared ⟨fun _ _ => False, fun _ => False, fun _ => False⟩ text v member
  cases v <;> trivial

namespace Arguments

/-- There is a first argument, and it has no text. -/
def Textless (args : List Value) : Prop := ∃ v rest, args = v :: rest ∧ v.asText? = none

theorem nextText_textless {args : List Value} (textless : Textless args) (name : String) :
    ∃ e, nextText { function := name, values := args } = .error e := by
  obtain ⟨v, rest, rfl, unreadable⟩ := textless
  cases v with
  | str _ | int _ | float _ => cases unreadable
  | nil | bool _ | table _ | function _ | userdata _ => exact ⟨_, rfl⟩

end Arguments

namespace Substitution

open Arguments

variable {args : List Value} {s : Substitution}

theorem start_plain (plain : ∀ v ∈ args, v.IsPlain) (started : start args = .ok s) :
    ∃ text, s.replacement = .template text := by
  suffices draws : Draws args (fun s : Substitution => ∃ text, s.replacement = .template text) _ from draws.reading started
  refine Draws.nextText.bind fun text _ => Draws.nextText.bind fun pattern _ => ?_
  refine (Draws.lift _).bind fun program _ => Draws.nextOrNil.bind fun v given => ?_
  have rest (replacement : Replacement) (fixed : ∃ text, replacement = .template text) :
      Draws args (fun s : Substitution => ∃ text, s.replacement = .template text) (do
        let limit ← optInt Int64.maxValue
        return { subject := text.toList.toArray, search := program.search?, replacement, limit := limit.toInt }) :=
    (Draws.optInt _).bind fun _ _ => .pure fixed
  split
  · next table => exact (plain _ (given.resolve_left (by simp))).elim
  · next f => exact (plain _ (given.resolve_left (by simp))).elim
  · split
    · exact rest _ ⟨_, rfl⟩
    · exact Draws.get.bind fun _ _ => .bind (.throw _) rest

theorem start_textless (textless : Textless args) : start args ≠ .ok s := by
  obtain ⟨e, failed⟩ := nextText_textless textless "gsub"
  intro started
  change Except.bind (Except.bind (nextText _) _) _ = _ at started
  rw [failed] at started
  cases started

/-- A template needs nobody else. -/
theorem run_template {text : List Char} (fixed : s.replacement = .template text) (fuel : Nat) :
    ∃ results, s.run fuel = .finished results := by
  induction fuel generalizing s with
  | zero => exact ⟨_, rfl⟩
  | succ fuel ih =>
    simp only [run]
    split
    · exact ⟨_, rfl⟩
    · exact ih fixed
    · next found matched =>
      have same : (s.past found).replacement = .template text := fixed
      simp only [same]
      exact ih rfl

/-- What a function is called with for a replacement. -/
theorem run_captures {fuel : Nat} {f : FunctionId} {captures : List Value} {next : Substitution}
    (ran : s.run fuel = .call f captures next) : ∀ v ∈ captures, v.IsPlain := by
  induction fuel generalizing s with
  | zero => cases ran
  | succ fuel ih =>
    simp only [run] at ran
    split at ran
    · cases ran
    · exact ih ran
    · next found matched =>
      split at ran
      · exact ih ran
      · cases ran
      · cases ran
        exact found.captures_plain _

end Substitution

theorem Formatting.start_textless {args : List Value} {s : Formatting} (textless : Arguments.Textless args) :
    start args ≠ .ok s := by
  obtain ⟨e, failed⟩ := Arguments.nextText_textless textless "format"
  intro started
  change Except.bind (Arguments.nextText _) _ = _ at started
  rw [failed] at started
  cases started

namespace Builtin

/-- How many calls of different kinds can be nested in the window of the function. -/
def reach : Builtin → Nat
  | gsub => 4
  | format => 3
  | tostring => 2
  | ioWrite | ioRead | ioFlush | ioClose => 1
  | _ => 0

end Builtin

/-- Scripts and iterations call nothing in their own window. -/
def Callable.reach : Callable → Nat
  | .builtin b => b.reach
  | _ => 0

namespace World

def reach (w : World) (f : FunctionId) : Nat := (w.callable f).reach

/-- The methods of handles that the io functions forward to. -/
def methods (w : World) : List FunctionId := [w.io.write, w.io.read, w.io.flush, w.io.close]

/-- The io functions forward to the methods of handles. -/
def Wired (w : World) : Prop :=
  w.methods.map w.callable = [.builtin .fileWrite, .builtin .fileRead, .builtin .fileFlush, .builtin .fileClose]

theorem Wired.reach {w : World} (wired : w.Wired) {f : FunctionId} (method : f ∈ w.methods) : w.reach f = 0 := by
  have member : w.callable f ∈ w.methods.map w.callable := List.mem_map_of_mem method
  rw [wired] at member
  simp only [List.mem_cons, List.not_mem_nil, or_false] at member
  rcases member with found | found | found | found <;> rw [World.reach, found] <;> rfl

end World

namespace Builtin

variable {b : Builtin} {a : Action} {args : List Value} {w v : World}

/-- What a function comes to by itself: its call ends, or it is suspended, or it asks for a call in
its own window. -/
inductive Comes (w : World) (b : Builtin) : Action → Prop where
  | ended {a : Action} (immediate : a.Immediate) : Comes w b a
  | suspended (own : b.reach = 0) (reason : SuspendReason) (s : Saved) : Comes w b (.suspend reason s)
  | call {captures : List Value} (own : b = .gsub) (plain : ∀ v ∈ captures, v.IsPlain) (f : FunctionId) (s : Saved) :
      Comes w b (.call (.function f) captures 0 s)
  | index (own : b = .gsub) (object key : Value) (s : Saved) : Comes w b (.index object key s)
  | text (own : b = .format ∨ b = .tostring) (v : Value) (s : Saved) : Comes w b (.textOf v s)
  | forward (own : b.reach = 1) {f : FunctionId} (method : f ∈ w.methods) (receiver : Option Value) (s : Saved) :
      Comes w b (.forward f receiver s)

theorem substituteOn_comes (s : Substitution) : Comes w .gsub (substituteOn s) := by
  simp only [substituteOn]
  cases ran : s.advance with
  | finished results => exact .ended (.inr ⟨_, rfl⟩)
  | lookup table key next => exact .index rfl _ _ _
  | call f captures next => exact .call rfl (Substitution.run_captures ran) _ _

theorem formatOn_comes {s : Formatting} (formatted : (formatOn s w).1 = .ok a) : Comes v .format a := by
  simp only [formatOn, World.bind_apply] at formatted
  cases advanced : s.advance with
  | error e =>
    rw [advanced] at formatted
    cases formatted
  | ok next =>
    rw [advanced] at formatted
    cases next with
    | finished text =>
      cases formatted
      exact .ended (.inr ⟨_, rfl⟩)
    | textOf value next =>
      cases formatted
      exact .text (.inl rfl) _ _

/-- An operation that ends the call or suspends it. -/
def Yields (op : WorldM Action) : Prop :=
  ∀ (w : World) (a : Action), (op w).1 = .ok a → a.Immediate ∨ ∃ reason s, a = .suspend reason s

namespace Yields

theorem ret (results : List Value) : Yields (pure (.ret results)) := by
  rintro w a ⟨⟩
  exact .inl (.inr ⟨_, rfl⟩)

theorem suspend (reason : SuspendReason) (s : Saved) : Yields (pure (.suspend reason s)) := by
  rintro w a ⟨⟩
  exact .inr ⟨_, _, rfl⟩

theorem throw (e : Failure) : Yields (throw e) := by
  rintro w a ⟨⟩

theorem bind {α : Type} {op : WorldM α} {next : α → WorldM Action} (rest : ∀ x, Yields (next x)) :
    Yields (op >>= next) := by
  intro w a answered
  rw [World.bind_apply] at answered
  split at answered
  · exact rest _ _ a answered
  · cases answered

theorem writeOn (r : Writing) : Yields (Files.writeOn r) := by
  refine .bind fun (result, t) => ?_
  rcases result with error | _
  · cases error with
    | wouldBlock => exact .suspend _ _
    | _ => exact .throw _
  · exact .ret _

theorem readItems (file : UserdataId) (results : List Value) (collected : Bytes) (formats : List ReadFormat) :
    Yields (Files.readItems file results collected formats) := by
  induction formats generalizing results collected with
  | nil => exact .ret _
  | cons format formats ih =>
    refine .bind fun (result, t) => ?_
    rcases result with error | v
    · cases error with
      | wouldBlock => exact .suspend _ _
      | _ => exact .throw _
    · simp only
      split
      · exact .ret _
      · exact ih _ _

theorem controlOn (file : UserdataId) (c : Control) : Yields (Files.controlOn file c) := by
  refine .bind fun (result, t) => ?_
  rcases result with error | _
  · cases error with
    | wouldBlock => exact .suspend _ _
    | _ => exact .ret _
  · exact .ret _

theorem finishOn (closing : Bool) (file : UserdataId) : Yields (Files.finishOn closing file) := by
  refine .bind fun (result, t) => ?_
  rcases result with error | _
  · cases error with
    | wouldBlock => exact .suspend _ _
    | _ => exact .throw _
  · exact .ret _

theorem nextItems (file : UserdataId) (formats : List ReadFormat) : Yields (Files.nextItems file formats) := by
  refine .bind fun w => ?_
  split
  · split
    · exact .throw _
    · exact .readItems _ _ _ _
  · exact .throw _

theorem close (args : List Value) : Yields (Files.close args) := by
  refine .bind fun w => .bind fun file => ?_
  split
  · split
    · exact .ret _
    · exact finishOn true file
  · exact finishOn true file

theorem comes {op : WorldM Action} (yields : Yields op) (own : b.reach = 0) (answered : (op w).1 = .ok a) :
    Comes v b a := by
  rcases yields w a answered with immediate | ⟨reason, s, rfl⟩
  · exact .ended immediate
  · exact .suspended own reason s

end Yields

theorem invoke_comes (answered : (b.invoke args w).1 = .ok a) : Comes w b a := by
  by_cases native : b.isResumable = false
  · exact .ended (World.invoke_answers native args w a answered)
  have method (f : FunctionId) (receiver : Option Value) (own : b.reach = 1) (member : f ∈ w.methods)
      (forwarded : a = .forward f receiver .unit) : Comes w b a := by
    rw [forwarded]
    exact .forward own member receiver .unit
  cases b with
  | pause => exact Yields.comes (.suspend _ _) rfl answered
  | tostring =>
    simp only [invoke, World.bind_apply] at answered
    split at answered
    · cases answered
      exact .text (.inr rfl) _ _
    · cases answered
  | format =>
    simp only [invoke, World.bind_apply] at answered
    split at answered
    · exact formatOn_comes answered
    · cases answered
  | gsub =>
    simp only [invoke, World.bind_apply] at answered
    split at answered
    · cases answered
      exact substituteOn_comes _
    · cases answered
  | fileWrite => exact Yields.comes (.bind fun _ => .bind fun _ => .writeOn _) rfl answered
  | fileRead => exact Yields.comes (.bind fun _ => .readItems _ _ _ _) rfl answered
  | fileFlush => exact Yields.comes (.bind fun _ => .bind fun _ => .finishOn _ _) rfl answered
  | fileClose => exact Yields.comes (.close _) rfl answered
  | fileSeek => exact Yields.comes (.bind fun _ => .bind fun _ => .controlOn _ _) rfl answered
  | fileSetvbuf => exact Yields.comes (.bind fun _ => .bind fun _ => .controlOn _ _) rfl answered
  | ioWrite => exact method _ _ rfl (by simp [World.methods]) (Except.ok.inj answered).symm
  | ioRead => exact method _ _ rfl (by simp [World.methods]) (Except.ok.inj answered).symm
  | ioFlush => exact method _ _ rfl (by simp [World.methods]) (Except.ok.inj answered).symm
  | ioClose => exact method _ _ rfl (by simp [World.methods]) (Except.ok.inj answered).symm
  | _ => exact absurd rfl native

theorem resume_comes {s : Saved} (expected : b.expects s = true) (answered : (b.resume s args w).1 = .ok a) :
    Comes v b a := by
  unfold expects at expected
  split at expected
  · exact Yields.comes (.ret _) rfl answered
  · cases text : (args.headD .nil).asText? <;> simp only [resume, text] at answered
    · cases answered
    · cases answered
      exact .ended (.inr ⟨_, rfl⟩)
  · simp only [resume, World.bind_apply] at answered
    split at answered
    · exact formatOn_comes answered
    · cases answered
  · simp only [resume, World.bind_apply] at answered
    split at answered
    · cases answered
      exact substituteOn_comes _
    · cases answered
  · exact Yields.comes (.writeOn _) rfl answered
  · exact Yields.comes (.readItems _ _ _ _) rfl answered
  · exact Yields.comes (.controlOn _ _) rfl answered
  · exact Yields.comes (.controlOn _ _) rfl answered
  · exact Yields.comes (.finishOn _ _) rfl answered
  · exact Yields.comes (.finishOn _ _) rfl answered
  iterate 4
    · cases answered
      exact .ended (.inl rfl)
  · cases expected

end Builtin

namespace Window

variable {w : Window} {s t : RegisterStack} {v : Value} {held : List Value}

private theorem inside_of_setTop (placed : (w.setTop 0 s).1 = .ok ()) : w.offset ≤ s.capacity := by
  rw [setTop, RegisterStack.setTop_apply] at placed
  split at placed
  · cases placed
  · omega

theorem values_ret (left : w.ret held s = (.ok (), t)) : w.values t = held := by
  by_cases fits : w.offset + held.length ≤ s.capacity
  · obtain ⟨r, same, shows, _⟩ := ret_shows fits
    cases left.symm.trans same
    exact shows.values
  · by_cases inside : w.offset ≤ s.capacity
    · obtain ⟨r, full⟩ := ret_full inside fits
      cases left.symm.trans full
    · rw [ret, RegisterStack.bind_apply] at left
      split at left
      · next placed => exact absurd (inside_of_setTop (congrArg Prod.fst placed)) inside
      · cases left

/-- The value that was put in front is the first one, if there was room for it and for the others. -/
theorem values_prepend (put : w.prepend v s = (.ok (), t)) : w.values t = v :: w.values s := by
  suffices room : w.offset + (w.values s).length + 1 ≤ s.capacity by
    obtain ⟨r, same, shows, _⟩ := prepend_shows v room
    cases put.symm.trans same
    exact shows.values
  change (w.setTop 0 >>= fun _ => w.push v >>= fun _ => w.pushAll (w.values s)) s = _ at put
  rw [RegisterStack.bind_apply] at put
  split at put
  · next _ r placed =>
    obtain ⟨r', emptied, empty, capacity⟩ := setTop_shows (inside_of_setTop (congrArg Prod.fst placed))
    obtain rfl : r = r' := congrArg Prod.snd (placed.symm.trans emptied)
    by_cases inside : w.offset < r.capacity
    · obtain ⟨q, pushed, single, same⟩ := empty.push_first v inside
      have top : q.top = w.offset + 1 := single.top
      rw [RegisterStack.bind_apply, pushed] at put
      change (if q.top < w.offset then _ else _ : StackM Unit) q = _ at put
      rw [if_neg (by omega), RegisterStack.push_apply] at put
      split at put
      · cases put
      · omega
    · have full : w.size r ≤ w.top r := by
        simp only [size, top]
        omega
      have refused : w.push v r = (.error (.insufficientSpace 1 0), r) := by
        change (if w.size r ≤ w.top r then _ else _ : StackM Unit) r = _
        rw [if_pos full]
        rfl
      rw [RegisterStack.bind_apply, refused] at put
      cases put
  · cases put

end Window

namespace World

variable {w : World} {v : Value}

/-- Only objects have handlers. -/
theorem asText?_of_handler {event : String} {handler : Value} (found : w.metamethod? v event = some handler) :
    v.asText? = none := by
  cases v with
  | str _ | int _ | float _ => cases found
  | nil | bool _ | table _ | function _ | userdata _ => rfl

theorem asText?_of_lookup {key object : Value} {links : Nat} {f : FunctionId}
    (looked : w.lookup key links object = .ok (.handler f v)) : v.asText? = none := by
  induction links generalizing object with
  | zero => cases looked
  | succ links ih =>
    unfold lookup at looked
    extract_lets raw at looked
    clear_value raw
    split at looked
    · cases looked
    · cases handled : w.metamethod? object "__index" with
      | none =>
        rw [handled] at looked
        cases object <;> cases looked
      | some handler =>
        rw [handled] at looked
        cases handler with
        | function g =>
          cases looked
          exact asText?_of_handler handled
        | _ => exact ih looked

end World

namespace Builtin

open Arguments

/-- What is done in the window of a function for it, as long as it has not gone on: the request that
it waits for is served, or the function that the request came to is called. -/
inductive Serves (w : World) (base : Window) (held : List Value) : Builtin → Activity → Prop where
  | returned {b : Builtin} : Serves w base held b .returned
  | replacement (plain : ∀ v ∈ held, v.IsPlain) (f : FunctionId) :
      Serves w base held .gsub (.dispatch (.value (.function f)) base)
  | lookup (object key : Value) : Serves w base held .gsub (.dispatch (.index object key) base)
  | replacing (given : (∀ v ∈ held, v.IsPlain) ∨ Textless held) (f : FunctionId) :
      Serves w base held .gsub (.enter f base)
  | text {b : Builtin} (own : b = .format ∨ b = .tostring) (v : Value) : Serves w base held b (.dispatch (.text v) base)
  | handler {b : Builtin} (own : b = .format ∨ b = .tostring) (textless : Textless held) (v : Value) :
      Serves w base held b (.dispatch (.value v) base)
  | telling {b : Builtin} (own : b = .format ∨ b = .tostring) (textless : Textless held) (f : FunctionId) :
      Serves w base held b (.enter f base)
  | method {b : Builtin} (own : b.reach = 1) {f : FunctionId} (member : f ∈ w.methods) :
      Serves w base held b (.dispatch (.function f) base)
  | forwarding {b : Builtin} (own : b.reach = 1) {f : FunctionId} (member : f ∈ w.methods) :
      Serves w base held b (.enter f base)

end Builtin

namespace Request

open CoopScript.Core Arguments

variable {b : Builtin} {r : Request} {base : Window} {a : Activity} {c d : Core}

/-- A request that ends with an operation on the stack leads on if the operation is done. -/
private theorem done_of_served {op : StackM Unit} {next : Activity}
    (served : (onStack op >>= fun _ => pure next : CoreM Activity) c = (.ok a, d)) :
    next = a ∧ op c.context.stack = (.ok (), d.context.stack) := by
  rw [bind_apply, onStack_apply] at served
  rcases moved : op c.context.stack with ⟨_ | _, t⟩ <;> rw [moved] at served <;> cases served
  exact ⟨rfl, rfl⟩

private theorem value_serves {v : Value} (own : b = .format ∨ b = .tostring)
    (textless : Textless (base.values c.context.stack)) (served : (Request.value v).serve base c = (.ok a, d)) :
    b.Serves d.world base (base.values d.context.stack) a := by
  by_cases direct : ∃ f, v = .function f
  · obtain ⟨f, rfl⟩ := direct
    cases served
    exact .telling own textless f
  · have other : ∀ f, v ≠ .function f := fun f same => direct ⟨f, same⟩
    rw [serve_value other] at served
    cases found : c.world.metamethod? v "__call" with
    | none =>
      rw [found] at served
      cases served
    | some handler =>
      rw [found] at served
      cases handler with
      | function f =>
        obtain ⟨rfl, put⟩ := done_of_served served
        exact .telling own ⟨v, _, Window.values_prepend put, World.asText?_of_handler found⟩ f
      | _ => cases served

private theorem lookup_serves {object key : Value} (served : (Request.index object key).serve base c = (.ok a, d)) :
    Builtin.Serves d.world base (base.values d.context.stack) .gsub a := by
  cases looked : c.world.lookup key indexChainLimit object with
  | error e =>
    simp only [Request.serve, bind_apply, getWorld_apply, looked] at served
    cases served
  | ok result =>
    simp only [Request.serve, bind_apply, getWorld_apply, looked] at served
    cases result with
    | found v =>
      obtain ⟨rfl, _⟩ := done_of_served served
      exact .returned
    | handler f o =>
      obtain ⟨rfl, left⟩ := done_of_served served
      exact .replacing (.inr ⟨o, _, Window.values_ret left, World.asText?_of_lookup looked⟩) f

private theorem text_serves {v : Value} (own : b = .format ∨ b = .tostring)
    (served : (Request.text v).serve base c = (.ok a, d)) : b.Serves d.world base (base.values d.context.stack) a := by
  cases found : c.world.metamethod? v "__tostring" with
  | none =>
    simp only [Request.serve, bind_apply, getWorld_apply, found] at served
    obtain ⟨rfl, _⟩ := done_of_served (by simpa only [bind_apply] using served)
    exact .returned
  | some handler =>
    simp only [Request.serve, bind_apply, getWorld_apply, found] at served
    obtain ⟨rfl, left⟩ := done_of_served (by simpa only [bind_apply] using served)
    exact .handler own ⟨v, _, Window.values_ret left, World.asText?_of_handler found⟩ _

/-- A request that is served leads to what still serves the function that waits. -/
theorem serve_serves (serves : b.Serves c.world base (base.values c.context.stack) (.dispatch r base))
    (served : r.serve base c = (.ok a, d)) : b.Serves d.world base (base.values d.context.stack) a := by
  cases serves with
  | replacement plain f =>
    cases served
    exact .replacing (.inl plain) f
  | handler own textless v => exact value_serves own textless served
  | method own member =>
    cases served
    exact .forwarding own member
  | lookup object key => exact lookup_serves served
  | text own v => exact text_serves own served

end Request

namespace Action

open CoopScript.Core

variable {a : Action} {b : Builtin} {f : FunctionId} {base : Window} {c d : Core} {frame : Frame}

private theorem call_performed {captures : List Value} {s : Saved} {g : FunctionId} {r : Request} {inner : Window}
    (performed : (onStack (base.setTop 0) >>= fun _ => onStack (base.pushAll captures) >>= fun _ =>
      pure (.call ⟨f, base, some s⟩ (.value (.function g)) base) : CoreM Move) c = (.ok (.call frame r inner), d)) :
    base.ret captures c.context.stack = (.ok (), d.context.stack) ∧ r = .value (.function g) ∧ inner = base := by
  rw [bind_apply, onStack_apply] at performed
  rw [← base.setTop_pushAll, RegisterStack.bind_apply]
  rcases placed : base.setTop 0 c.context.stack with ⟨_ | _, t⟩ <;> rw [placed] at performed
  · cases performed
  · simp only [bind_apply, onStack_apply, withStack_stack] at performed
    rcases pushed : base.pushAll captures t with ⟨_ | _, u⟩ <;> rw [pushed] at performed <;> cases performed
    exact ⟨pushed, rfl, rfl⟩

/-- A function that waits does so for something in its own window. -/
theorem perform_serves {r : Request} {inner : Window} (comes : b.Comes c.world a)
    (performed : a.perform f base c = (.ok (.call frame r inner), d)) :
    inner = base ∧ b.Serves d.world base (base.values d.context.stack) (.dispatch r base) := by
  cases comes with
  | ended immediate =>
    rcases immediate with rfl | ⟨results, rfl⟩
    · cases performed
    · simp only [perform, bind_apply] at performed
      split at performed <;> cases performed
  | suspended own reason s => cases performed
  | call own plain g s =>
    subst own
    obtain ⟨left, rfl, rfl⟩ := call_performed performed
    refine ⟨rfl, .replacement ?_ g⟩
    rw [Window.values_ret left]
    exact plain
  | index own object key s =>
    cases performed
    subst own
    exact ⟨rfl, .lookup object key⟩
  | text own v s =>
    cases performed
    exact ⟨rfl, .text own v⟩
  | @forward own g method receiver s =>
    cases receiver with
    | none =>
      cases performed
      exact ⟨rfl, .method own method⟩
    | some v =>
      simp only [perform, bind_apply, onStack_apply] at performed
      rcases put : base.prepend v c.context.stack with ⟨_ | _, t⟩ <;> rw [put] at performed <;> cases performed
      exact ⟨rfl, .method own method⟩

end Action

namespace Builtin

variable {b outer : Builtin} {a : Action} {base : Window} {held : List Value} {w : World} {f : FunctionId}

private theorem started_of_gsub (answered : (gsub.invoke held w).1 = .ok a) :
    ∃ s, Substitution.start held = .ok s ∧ a = substituteOn s := by
  simp only [invoke, World.bind_apply] at answered
  cases started : Substitution.start held with
  | error e =>
    rw [started] at answered
    cases answered
  | ok s =>
    rw [started] at answered
    exact ⟨s, rfl, (Except.ok.inj answered).symm⟩

private theorem started_of_format (answered : (format.invoke held w).1 = .ok a) : ∃ s, Formatting.start held = .ok s := by
  simp only [invoke, World.bind_apply] at answered
  cases started : Formatting.start held with
  | error e =>
    rw [started] at answered
    cases answered
  | ok s => exact ⟨s, rfl⟩

/-- A function that is called in the window of another one ends at once, or it has less reach, or
both are for the text of a value. -/
theorem Serves.settles (serves : outer.Serves w base held (.enter f base)) (wired : w.Wired)
    (found : w.callable f = .builtin b) (answered : (b.invoke held w).1 = .ok a) :
    a.Immediate ∨ b.reach < outer.reach ∨ outer = .tostring ∧ b = .tostring := by
  cases serves with
  | forwarding own member =>
    have none := wired.reach member
    rw [World.reach, found] at none
    refine .inr (.inl ?_)
    rw [own]
    exact Nat.lt_of_le_of_lt (Nat.le_of_eq none) Nat.one_pos
  | replacing given =>
    cases b with
    | gsub =>
      refine .inl ?_
      obtain ⟨s, started, rfl⟩ := started_of_gsub answered
      rcases given with plain | textless
      · obtain ⟨text, fixed⟩ := Substitution.start_plain plain started
        obtain ⟨results, finished⟩ := Substitution.run_template fixed (2 * s.subject.size + 3)
        rw [substituteOn, Substitution.advance, finished]
        exact .inr ⟨_, rfl⟩
      · exact absurd started (Substitution.start_textless textless)
    | _ => exact .inr (.inl (by decide))
  | telling own textless =>
    cases b with
    | gsub =>
      obtain ⟨s, started, _⟩ := started_of_gsub answered
      exact absurd started (Substitution.start_textless textless)
    | format =>
      obtain ⟨s, started⟩ := started_of_format answered
      exact absurd started (Formatting.start_textless textless)
    | tostring =>
      rcases own with rfl | rfl
      · exact .inr (.inl (by decide))
      · exact .inr (.inr ⟨rfl, rfl⟩)
    | _ => exact .inr (.inl (by rcases own with rfl | rfl <;> decide))

end Builtin

end CoopScript
