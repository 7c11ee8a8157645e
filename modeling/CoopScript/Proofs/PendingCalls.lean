import CoopScript.Proofs.FixedParts

/-! The shape of the pending call stack. The calls that are active are followed along a run: a
call begins when its function is entered and is over when the function returns. Between two steps
they are the frames that wait, innermost first, and each frame that waits is linked to the window
of the call it waits for; a suspension saves them all, and the next drain takes them up again. -/

namespace CoopScript

/-- A call that has begun and is not over. -/
structure Activation where
  function : FunctionId
  base : Window
  deriving DecidableEq

def Frame.activation (frame : Frame) : Activation := ⟨frame.function, frame.base⟩

namespace Machine

/-- The active calls once the call that is about to begin, if there is one, has begun. -/
def begun (m : Machine) (active : List Activation) : List Activation :=
  match m.activity with
  | .enter f w => ⟨f, w⟩ :: active
  | _ => active

def returns (m next : Machine) : Bool :=
  match m.activity.function?, next.activity with
  | some _, .returned => true
  | _, _ => false

def continued (m next : Machine) (calls : List Activation) : List Activation :=
  if m.returns next then (m.begun calls).tail else m.begun calls

/-- The active calls after a run, from the ones before it. -/
def active : Nat → Machine → List Activation → List Activation
  | 0, _, calls => calls
  | fuel + 1, m, calls =>
    match m.step with
    | .inl next => next.active fuel (m.continued next calls)
    | .inr _ => m.begun calls

end Machine

namespace Executor

/-- The paused states of an executor whose call of a function is drained again and again, with
the calls that are active. What others do in between leaves the frames and their code alone. -/
inductive Suspended (f : FunctionId) : World → Executor → List Activation → Prop where
  | pushed {w : World} {e pending : Executor} {args : List Value} (pushed : e.pushCall f args = (.ok (), pending)) :
      Suspended f w pending []
  | drained {w e calls fuel v paused} (before : Suspended f w e calls)
      (ran : drain fuel w e = some (.ok .paused, v, paused)) : Suspended f v paused ((e.machine w).active fuel calls)
  | meanwhile {w e calls v other} (before : Suspended f w e calls) (frames : other.callStack = e.callStack)
      (code : ∀ frame ∈ e.callStack, v.proto? frame.function = w.proto? frame.function) : Suspended f v other calls

end Executor

namespace Frame

/-- The frame waits for a call in the window. A script waits after the instruction that made the
call, in the window of that instruction. -/
structure Awaits (w : World) (inner : Window) (frame : Frame) : Prop where
  offset : frame.base.offset ≤ inner.offset
  script : ∀ p, w.proto? frame.function = some p → ∃ pc pending,
    frame.state = some (.script (pc + 1) (some pending)) ∧ p.code[pc]?.bind Instr.pending? = some pending ∧
      inner = pending.window p frame.base

/-- The frame was suspended by its own function; a script is suspended at a tick. -/
def Ticked (w : World) (frame : Frame) : Prop :=
  ∀ p, w.proto? frame.function = some p → ∃ pc, frame.state = some (.script (pc + 1) none) ∧ p.code[pc]? = some .tick

end Frame

namespace Frame

variable {w v : World} {inner : Window} {frame : Frame}

theorem Awaits.of_code (awaits : frame.Awaits w inner) (code : v.proto? frame.function = w.proto? frame.function) :
    frame.Awaits v inner :=
  ⟨awaits.offset, by rw [code]; exact awaits.script⟩

theorem Ticked.of_code (ticked : frame.Ticked w) (code : v.proto? frame.function = w.proto? frame.function) :
    frame.Ticked v := by
  rw [Ticked, code]
  exact ticked

/-- A function other than a script waits for calls in its own window or further in. -/
theorem Awaits.of_other (other : w.proto? frame.function = none) (offset : frame.base.offset ≤ inner.offset) :
    frame.Awaits w inner := by
  refine ⟨offset, ?_⟩
  simp [other]

theorem Ticked.of_other (other : w.proto? frame.function = none) : frame.Ticked w := by
  simp [Ticked, other]

end Frame

namespace World

/-- The frames of the active calls of a suspended function, in the order they are resumed. -/
structure Captures (w : World) (f : FunctionId) (calls : List Activation) (frames : List Frame) : Prop where
  activations : frames.map Frame.activation = calls
  outermost : calls.getLast? = some ⟨f, ⟨0⟩⟩
  started : ∀ frame ∈ frames, frame.state.isSome
  linked : frames.IsChain fun inner outer => outer.Awaits w inner.base
  first : ∀ frame ∈ frames.head?, frame.Ticked w

theorem Captures.of_code {w v : World} {f : FunctionId} {calls : List Activation} {frames : List Frame}
    (captures : w.Captures f calls frames) (code : ∀ frame ∈ frames, v.proto? frame.function = w.proto? frame.function) :
    v.Captures f calls frames := by
  refine ⟨captures.activations, captures.outermost, captures.started, ?_, ?_⟩
  · exact captures.linked.imp_of_mem_imp fun _ outer _ member awaits => awaits.of_code (code outer member)
  · intro frame head
    exact (captures.first frame head).of_code (code frame (List.mem_of_mem_head? head))

end World

/-- Where a call leads in a step: it is over, goes on, waits for another one, or is suspended. -/
inductive Activation.Leads (w : World) (call : Activation) : Move → Prop where
  | returned : Leads w call (.go .returned)
  | running (pc : Nat) : Leads w call (.go (.running call.function call.base pc))
  | waits {frame : Frame} (r : Request) {inner : Window} (own : frame.activation = call)
      (started : frame.state.isSome = true) (awaits : frame.Awaits w inner) : Leads w call (.call frame r inner)
  | suspended (reason : SuspendReason) {frame : Frame} (own : frame.activation = call)
      (started : frame.state.isSome = true) (ticked : frame.Ticked w) : Leads w call (.suspend reason frame)

open CoopScript.Core in
theorem Action.perform_leads {f : FunctionId} {base : Window} {w : World} (other : w.proto? f = none) {a : Action} {c : Core}
    {move : Move} (performed : (a.perform f base c).1 = .ok move) : Activation.Leads w ⟨f, base⟩ move := by
  have after {op : StackM Unit} {next : CoreM Move} {c : Core} (ran : ((onStack op >>= fun _ => next) c).1 = .ok move) :
      ∃ d, (next d).1 = .ok move := by
    rw [bind_apply] at ran
    split at ran
    · exact ⟨_, ran⟩
    · cases ran
  cases a with
  | done =>
    cases performed
    exact .returned
  | ret results | takeOver shift =>
    obtain ⟨d, performed⟩ := after performed
    cases performed
    exact .returned
  | suspend reason state =>
    cases performed
    exact .suspended reason rfl rfl (.of_other other)
  | call callee args shift state =>
    obtain ⟨d, performed⟩ := after performed
    obtain ⟨d', performed⟩ := after performed
    cases performed
    exact .waits _ rfl rfl (.of_other other (Nat.le_add_right _ _))
  | forward function receiver state =>
    cases receiver with
    | none =>
      cases performed
      exact .waits _ rfl rfl (.of_other other (Nat.le_refl _))
    | some v =>
      obtain ⟨d, performed⟩ := after performed
      cases performed
      exact .waits _ rfl rfl (.of_other other (Nat.le_refl _))
  | index object key state | textOf value state =>
    cases performed
    exact .waits _ rfl rfl (.of_other other (Nat.le_refl _))
  | spend cost state =>
    simp only [perform, bind_apply] at performed
    split at performed
    · split at performed
      · split at performed
        · cases performed
          exact .suspended _ rfl rfl (.of_other other)
        · cases performed
          exact .returned
      · cases performed
    · cases performed

namespace Activation

open CoopScript.Core

variable {c : Core} {f : FunctionId} {base : Window} {move : Move}

private theorem proto?_eq_none {w : World} {other : Callable} (found : w.callable f = other)
    (plain : other.proto? = none) : w.proto? f = none := by
  rw [World.proto?, found, plain]

private theorem leads_of_action (other : c.world.proto? f = none) (op : WorldM Action) {d : Core}
    (ran : ((onWorld op >>= fun a => a.perform f base) d).1 = .ok move) : Leads c.world ⟨f, base⟩ move := by
  rw [bind_apply] at ran
  split at ran
  · exact Action.perform_leads other ran
  · cases ran

theorem invoke_leads (called : ((c.world.callable f).invoke f base c).1 = .ok move) :
    Leads c.world ⟨f, base⟩ move := by
  cases found : c.world.callable f with
  | script p =>
    rw [found] at called
    simp only [Callable.invoke, bind_apply, getStack_apply] at called
    split at called
    · cases called
      exact .running 0
    · cases called
  | builtin b =>
    rw [found] at called
    exact leads_of_action (proto?_eq_none found rfl) _ called
  | «matches» cursor =>
    rw [found] at called
    have performed : ((Action.ret cursor.advance.1).perform f base
        { c with world := c.world.setCallable f (.matches cursor.advance.2) }).1 = .ok move := called
    exact Action.perform_leads (proto?_eq_none found rfl) performed
  | lines file formats =>
    rw [found] at called
    exact leads_of_action (proto?_eq_none found rfl) _ called
  | host h =>
    rw [found] at called
    exact leads_of_action (proto?_eq_none found rfl) (h.invoke (base.values c.context.stack)).action called

theorem resume_leads {s : Saved} (resumed : ((c.world.callable f).resume f base s c).1 = .ok move) :
    Leads c.world ⟨f, base⟩ move := by
  cases found : c.world.callable f with
  | script p =>
    rw [found] at resumed
    cases s with
    | script pc pending =>
      simp only [Callable.resume, bind_apply, getStack_apply] at resumed
      split at resumed
      · cases resumed
        exact .running pc
      · cases resumed
    | _ => cases resumed
  | builtin b =>
    rw [found] at resumed
    exact leads_of_action (proto?_eq_none found rfl) _ resumed
  | «matches» cursor =>
    rw [found] at resumed
    cases resumed
  | lines file formats =>
    rw [found] at resumed
    cases s with
    | reading r => exact leads_of_action (proto?_eq_none found rfl) _ resumed
    | _ => cases resumed
  | host h =>
    rw [found] at resumed
    exact leads_of_action (proto?_eq_none found rfl) (h.resume s (base.values c.context.stack)).action resumed

/-- A script waits after a call or a lookup, and is suspended after a tick. -/
theorem running_leads {pc : Nat} (ran : ((Activity.running f base pc).step c).1 = .ok move) :
    Leads c.world ⟨f, base⟩ move := by
  cases script : c.world.proto? f with
  | none =>
    simp only [Activity.step, bind_apply, getWorld_apply] at ran
    cases found : c.world.callable f with
    | script p => cases script.symm.trans (World.proto?_eq_some.mpr found)
    | _ =>
      rw [found] at ran
      cases ran
      exact .returned
  | some p =>
    have same (q : Proto) (found : c.world.proto? f = some q) : q = p := Option.some.inj (found.symm.trans script)
    rw [Activity.step_running (World.proto?_eq_some.mp script)] at ran
    rcases p.place_cases pc with plain | ⟨cost, found⟩ | found
    · rw [Proto.step_plain c plain] at ran
      simp only [Proto.stepOf] at ran
      cases done : (p.effect base c.context.stack p.code[pc]?).1 with
      | error e =>
        rw [done] at ran
        cases ran
      | ok effect =>
        rw [done] at ran
        cases ran
        cases effect with
        | advance => exact .running (pc + 1)
        | jump target => exact .running target
        | leave => exact .returned
        | await pending r callee =>
          obtain ⟨made, window⟩ := Proto.effect_await done
          refine .waits r rfl rfl ⟨?_, ?_⟩
          · rw [window]
            cases pending <;> exact Nat.le_add_right _ _
          · intro q found
            cases same q found
            exact ⟨pc, pending, rfl, made, window⟩
    · rw [Proto.step_charge c found] at ran
      cases ran
      exact .running (pc + 1)
    · rw [Proto.step_tick c found] at ran
      split at ran
      · cases ran
        refine .suspended _ rfl rfl ?_
        intro q found'
        cases same q found'
        exact ⟨pc, rfl, found⟩
      · cases ran
        exact .running (pc + 1)

end Activation

namespace Activity

def activation? : Activity → Option Activation
  | .enter f w | .resume f w _ | .running f w _ => some ⟨f, w⟩
  | .returned | .dispatch _ _ => none

def begun? : Activity → Option Activation
  | .resume f w _ | .running f w _ => some ⟨f, w⟩
  | .returned | .dispatch _ _ | .enter _ _ => none

theorem window?_of_activation? {a : Activity} {call : Activation} (own : a.activation? = some call) :
    a.window? = some call.base := by
  cases a <;> cases own <;> rfl

theorem function?_of_activation? {a : Activity} {call : Activation} (own : a.activation? = some call) :
    a.function? = some call.function := by
  cases a <;> cases own <;> rfl

theorem step_leads {a : Activity} {call : Activation} (own : a.activation? = some call) {c : Core} {move : Move}
    (stepped : (a.step c).1 = .ok move) : call.Leads c.world move := by
  cases a with
  | returned | dispatch _ _ => cases own
  | enter f w =>
    cases own
    exact Activation.invoke_leads stepped
  | resume f w s =>
    cases own
    exact Activation.resume_leads stepped
  | running f w pc =>
    cases own
    exact Activation.running_leads stepped

end Activity

namespace Machine

/-- The active calls are the one at work, once it has begun, and those that wait for it, down to
the one of the function `f`. -/
structure Tracks (f : FunctionId) (m : Machine) (calls : List Activation) : Prop where
  activations : calls = m.activity.begun?.toList ++ m.frames.map Frame.activation
  outermost : m.activity = .returned ∧ m.frames = [] ∨
    (m.activity.activation?.toList ++ m.frames.map Frame.activation).getLast? = some ⟨f, ⟨0⟩⟩
  started : ∀ frame ∈ m.frames, frame.state.isSome
  linked : m.frames.IsChain fun inner outer => outer.Awaits m.core.world inner.base
  awaited : ∀ inner ∈ m.activity.window?, ∀ frame ∈ m.frames.head?, frame.Awaits m.core.world inner

namespace Tracks

variable {f : FunctionId} {m next : Machine} {calls : List Activation}

theorem begun_eq (tracks : m.Tracks f calls) {call : Activation} (own : m.activity.activation? = some call) :
    m.begun calls = call :: m.frames.map Frame.activation := by
  have same := tracks.activations
  simp only [begun]
  generalize m.activity = a at own same
  cases a with
  | returned | dispatch _ _ => cases own
  | enter _ _ | resume _ _ _ | running _ _ _ =>
    cases own
    simp only [same, Activity.begun?, Option.toList_none, Option.toList_some, List.nil_append, List.cons_append]

theorem outermost_call (tracks : m.Tracks f calls) {call : Activation} (own : m.activity.activation? = some call) :
    (call :: m.frames.map Frame.activation).getLast? = some ⟨f, ⟨0⟩⟩ := by
  rcases tracks.outermost with ⟨returned, _⟩ | outermost
  · rw [returned] at own
    cases own
  · rwa [own] at outermost

private theorem linked_of_code {w v : World} {frames : List Frame} (code : ∀ g, v.proto? g = w.proto? g)
    (linked : frames.IsChain fun inner outer => outer.Awaits w inner.base) :
    frames.IsChain fun inner outer => outer.Awaits v inner.base :=
  linked.imp fun _ _ awaits => awaits.of_code (code _)

theorem returned_step (tracks : m.Tracks f calls) (returned : m.activity = .returned) (moved : m.step = .inl next) :
    next.Tracks f (m.continued next calls) := by
  have same : m.continued next calls = calls := by
    simp only [continued, returns, begun, returned, Activity.function?]
    rfl
  rw [same]
  cases Step.of_step moved with
  | went working | called working => exact absurd returned working
  | @returned frame callers pending _ waiting =>
    -- the first frame that waits becomes the call at work
    obtain ⟨saved, started⟩ := Option.isSome_iff_exists.mp
      (tracks.started frame (by rw [waiting]; exact List.mem_cons_self))
    have activity : frame.activity = .resume frame.function frame.base saved := by
      simp only [Frame.activity, started]
    have linked := tracks.linked
    rw [waiting, List.isChain_cons] at linked
    refine ⟨?_, .inr ?_, ?_, linked.2, ?_⟩
    · change calls = frame.activity.begun?.toList ++ (callers ++ pending).map Frame.activation
      rw [tracks.activations, returned, waiting, activity]
      rfl
    · change (frame.activity.activation?.toList ++ (callers ++ pending).map Frame.activation).getLast? = _
      rw [activity]
      rcases tracks.outermost with ⟨_, nothing⟩ | outermost
      · cases nothing.symm.trans waiting
      · rw [returned, waiting] at outermost
        exact outermost
    · intro other member
      apply tracks.started other
      rw [waiting]
      exact List.mem_cons_of_mem _ member
    · intro inner window first head
      change inner ∈ frame.activity.window? at window
      rw [activity] at window
      cases window
      exact linked.1 first head

theorem dispatch_step (tracks : m.Tracks f calls) {r : Request} {w : Window} (dispatch : m.activity = .dispatch r w)
    (moved : m.step = .inl next) : next.Tracks f (m.continued next calls) := by
  have same : m.continued next calls = calls := by
    simp only [continued, returns, begun, dispatch, Activity.function?]
    rfl
  have kept := (step_keeps moved).code
  obtain ⟨activations, outermost, started, linked, awaited⟩ := tracks
  rw [step_working dispatch (by simp)] at moved
  rw [dispatch] at activations outermost awaited
  simp only [Activity.step, Core.bind_apply] at moved
  have outermost : (m.frames.map Frame.activation).getLast? = some ⟨f, ⟨0⟩⟩ := by
    rcases outermost with ⟨impossible, _⟩ | outermost
    · cases impossible
    · exact outermost
  rcases served : r.serve w m.core with ⟨_ | a, after⟩ <;> rw [served] at moved
  · cases moved
  · cases moved
    rw [same]
    have leads := Request.serve_served (congrArg Prod.fst served)
    refine ⟨?_, .inr ?_, started, linked_of_code kept linked, ?_⟩
    · cases leads <;> exact activations
    · have below (call : Option Activation) : (call.toList ++ m.frames.map Frame.activation).getLast? = some ⟨f, ⟨0⟩⟩ := by
        rw [List.getLast?_append, outermost]
        rfl
      exact below _
    · intro inner window first head
      refine (awaited inner ?_ first head).of_code (kept _)
      cases leads with
      | returned => cases window
      | call _ | handler _ _ _ => exact window

theorem call_step (tracks : m.Tracks f calls) {call : Activation} (own : m.activity.activation? = some call)
    (moved : m.step = .inl next) : next.Tracks f (m.continued next calls) := by
  have begun := tracks.begun_eq own
  have kept := (step_keeps moved).code
  have working : m.activity ≠ .returned := by
    intro returned
    rw [returned] at own
    cases own
  have function := Activity.function?_of_activation? own
  have window := Activity.window?_of_activation? own
  have outermost := tracks.outermost_call own
  cases Step.of_step moved with
  | returned returned => exact absurd returned working
  | went _ stepped =>
    cases Activity.step_leads own (congrArg Prod.fst stepped) with
    | returned =>
      refine ⟨?_, ?_, tracks.started, linked_of_code kept tracks.linked, ?_⟩
      · simp only [continued, returns, function, begun, if_true, List.tail_cons]
        rfl
      · cases waiting : m.frames with
        | nil => exact .inl ⟨rfl, waiting⟩
        | cons frame rest =>
          refine .inr ?_
          rw [waiting, List.map_cons, List.getLast?_cons_cons] at outermost
          change (m.frames.map Frame.activation).getLast? = _
          rw [waiting]
          exact outermost
      · rintro _ ⟨⟩
    | running pc =>
      refine ⟨?_, .inr outermost, tracks.started, linked_of_code kept tracks.linked, ?_⟩
      · simp only [continued, returns, function, begun, Bool.false_eq_true, if_false]
        rfl
      · intro inner inside first head
        exact (tracks.awaited inner (window ▸ inside) first head).of_code (kept _)
  | @called frame r inner _ _ stepped =>
    cases Activity.step_leads own (congrArg Prod.fst stepped) with
    | waits _ same started awaits =>
      refine ⟨?_, .inr ?_, ?_, ?_, ?_⟩
      · simp only [continued, returns, function, begun, Bool.false_eq_true, if_false, ← same]
        rfl
      · rw [← same] at outermost
        exact outermost
      · intro other member
        rcases List.mem_cons.mp member with rfl | member
        · exact started
        · exact tracks.started other member
      · refine List.isChain_cons.mpr ⟨?_, linked_of_code kept tracks.linked⟩
        intro first head
        have base : frame.base = call.base := congrArg Activation.base same
        exact (tracks.awaited frame.base (base ▸ window) first head).of_code (kept _)
      · rintro _ ⟨⟩ _ ⟨⟩
        exact awaits.of_code (kept _)

theorem step (tracks : m.Tracks f calls) (moved : m.step = .inl next) : next.Tracks f (m.continued next calls) := by
  cases activity : m.activity with
  | returned => exact tracks.returned_step activity moved
  | dispatch r w => exact tracks.dispatch_step activity moved
  | enter g w =>
    have own : m.activity.activation? = some ⟨g, w⟩ := by rw [activity, Activity.activation?]
    exact tracks.call_step own moved
  | resume g w s =>
    have own : m.activity.activation? = some ⟨g, w⟩ := by rw [activity, Activity.activation?]
    exact tracks.call_step own moved
  | running g w pc =>
    have own : m.activity.activation? = some ⟨g, w⟩ := by rw [activity, Activity.activation?]
    exact tracks.call_step own moved

/-- A suspension saves the active calls. -/
theorem suspends (tracks : m.Tracks f calls) {reason : SuspendReason} {paused : Machine}
    (halted : m.step = .inr (.paused reason, paused)) :
    paused.core.world.Captures f (m.begun calls) paused.pending := by
  obtain ⟨frame, d, stepped, saved, functions⟩ := suspended_of_paused halted
  have kept (g : FunctionId) : paused.core.world.proto? g = m.core.world.proto? g := by
    have code := (m.activity.step_keeps m.core).code g
    rw [stepped] at code
    rw [← code]
    simp only [World.proto?, World.callable, functions]
  obtain ⟨call, own⟩ : ∃ call, m.activity.activation? = some call := by
    generalize m.activity = a at stepped
    cases a with
    | returned => cases stepped
    | dispatch r w =>
      simp only [Activity.step, Core.bind_apply] at stepped
      split at stepped <;> cases stepped
    | enter _ _ | resume _ _ _ | running _ _ _ => exact ⟨_, rfl⟩
  cases Activity.step_leads own (congrArg Prod.fst stepped) with
  | suspended _ same started ticked =>
    have begun := tracks.begun_eq own
    rw [← same] at begun
    rw [saved]
    refine ⟨begun.symm, ?_, ?_, List.isChain_cons.mpr ⟨?_, linked_of_code kept tracks.linked⟩, ?_⟩
    · rw [begun, same]
      exact tracks.outermost_call own
    · intro other member
      rcases List.mem_cons.mp member with rfl | member
      · exact started
      · exact tracks.started other member
    · intro first head
      have base : frame.base = call.base := congrArg Activation.base same
      exact (tracks.awaited frame.base (base ▸ Activity.window?_of_activation? own) first head).of_code (kept _)
    · rintro _ ⟨⟩
      exact ticked.of_code (kept _)

/-- The calls that are active when a run is suspended are the ones it saves. -/
theorem run (tracks : m.Tracks f calls) {fuel : Nat} {reason : SuspendReason} {paused : Machine}
    (ran : m.run fuel = some (.paused reason, paused)) :
    paused.core.world.Captures f (m.active fuel calls) paused.pending := by
  induction fuel generalizing m calls with
  | zero => cases ran
  | succ fuel ih =>
    cases moved : m.step with
    | inl next =>
      rw [run_inl moved] at ran
      simp only [active, moved]
      exact ih (tracks.step moved) ran
    | inr result =>
      obtain ⟨_, _⟩ := result
      rw [run_inr moved] at ran
      cases ran
      simp only [active, moved]
      exact tracks.suspends moved

end Tracks

end Machine

namespace Executor

private theorem tracks_of_captures {w : World} {e : Executor} {f : FunctionId} {calls : List Activation}
    (captures : w.Captures f calls e.callStack) : (e.machine w).Tracks f calls := by
  refine ⟨captures.activations.symm, .inr ?_, captures.started, captures.linked, by simp [machine, Activity.window?]⟩
  change (e.callStack.map Frame.activation).getLast? = _
  rw [captures.activations, captures.outermost]

/-- The pending call stack of a paused executor is the entry of a call that has not started, or
the frames of exactly the calls that were active when it was suspended. -/
theorem Suspended.callStack_shape {w : World} {e : Executor} {f : FunctionId} {calls : List Activation}
    (suspended : Suspended f w e calls) :
    e.callStack = [⟨f, ⟨0⟩, none⟩] ∧ calls = [] ∨ w.Captures f calls e.callStack := by
  induction suspended with
  | pushed pushed => exact .inl ⟨callStack_of_pushCall pushed, rfl⟩
  | @drained w e calls fuel v paused before ran ih =>
    obtain ⟨reason, last, rested, rfl, saved⟩ := run_of_paused ran
    rw [saved]
    rcases ih with ⟨entry, rfl⟩ | captures
    · -- the entry is taken up first, and no call is active yet
      have taken := machine_step_entry entry w
      cases fuel with
      | zero => cases rested
      | succ fuel =>
        rw [Machine.run_inl taken] at rested
        have tracks : Machine.Tracks f { core := (e.machine w).core, activity := .enter f ⟨0⟩ } [] :=
          ⟨rfl, .inr rfl, by simp [Machine.frames], .nil, by simp [Machine.frames]⟩
        simp only [Machine.active, taken]
        exact .inr (tracks.run rested)
    · exact .inr ((tracks_of_captures captures).run rested)
  | meanwhile before frames code ih =>
    rw [frames]
    exact ih.imp id fun captures => captures.of_code code

private def waiting : Proto where
  name := "waiting"
  params := 0
  regs := 1
  constants := [.function ⟨1⟩]
  code := [.loadConst 0 0, .call 0 0 0, .ret 0 0]

private def waitingWorld : World := { functions := #[.script waiting, .builtin .pause] }

private def waitingExecutor : Executor := { context := { stack := ⟨#[.nil, .nil], 0⟩, budget := Budget.new {} } }

private def waitingCall : Executor := (waitingExecutor.pushCall ⟨0⟩ []).2

theorem callStack_shape_waiting : waitingWorld.Captures ⟨0⟩ [⟨⟨1⟩, ⟨1⟩⟩, ⟨⟨0⟩, ⟨0⟩⟩]
    [⟨⟨1⟩, ⟨1⟩, some (.arguments [])⟩, ⟨⟨0⟩, ⟨0⟩, some (.script 2 (some (.call 0 0)))⟩] := by
  have pushed : waitingExecutor.pushCall ⟨0⟩ [] = (.ok (), waitingCall) := by cbv
  have ran : drain 10 waitingWorld waitingCall = some (.ok .paused, waitingWorld,
      { context := { stack := ⟨#[.function ⟨1⟩, .nil], 1⟩, budget := ⟨10000, some 10000, 0, 0⟩ }
        callStack := [⟨⟨1⟩, ⟨1⟩, some (.arguments [])⟩, ⟨⟨0⟩, ⟨0⟩, some (.script 2 (some (.call 0 0)))⟩]
        state := .paused
        lastReason := some .yield }) := by
    cbv
  have calls : (waitingCall.machine waitingWorld).active 10 [] = [⟨⟨1⟩, ⟨1⟩⟩, ⟨⟨0⟩, ⟨0⟩⟩] := by cbv
  have suspended := Suspended.drained (.pushed pushed) ran
  rw [calls] at suspended
  rcases suspended.callStack_shape with ⟨fresh, _⟩ | captures
  · cases fresh
  · exact captures

end Executor

end CoopScript
