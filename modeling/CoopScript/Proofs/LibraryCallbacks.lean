import CoopScript.Proofs.LibraryQuestions
import CoopScript.Proofs.ReadArrival

/-! Callbacks of library functions. While a callback is suspended, all that is left of the library
function is the frame with its saved state, and it is the same frame that a callback returns to at
once. So what callbacks deliver settles the course of the call, and not when they deliver it. -/

namespace CoopScript

/-- The arguments answer questions in the one world as in the other. -/
structure World.SameAnswers (args : List Value) (w v : World) : Prop where
  lookup : ∀ a ∈ args, ∀ key, v.lookup key indexChainLimit a = w.lookup key indexChainLimit a
  handler : ∀ a ∈ args, v.metamethod? a "__tostring" = w.metamethod? a "__tostring"
  caller : ∀ a ∈ args, ∀ handler, w.metamethod? a "__tostring" = some handler →
    v.metamethod? handler "__call" = w.metamethod? handler "__call"
  text : ∀ a ∈ args, v.defaultText a = w.defaultText a

namespace World.SameAnswers

variable {args : List Value} {u v w : World}

theorem of_sameObjects (same : w.SameObjects v) (args : List Value) : w.SameAnswers args v :=
  ⟨fun a _ key => same.lookup key _ a, fun a _ => same.metamethod? a _, fun _ _ handler _ => same.metamethod? handler _,
    fun a _ => same.defaultText a⟩

theorem trans (first : u.SameAnswers args v) (rest : v.SameAnswers args w) : u.SameAnswers args w := by
  refine ⟨?_, ?_, ?_, ?_⟩
  · intro a member key
    rw [rest.lookup a member, first.lookup a member]
  · intro a member
    rw [rest.handler a member, first.handler a member]
  · intro a member handler found
    rw [rest.caller a member handler ((first.handler a member).trans found), first.caller a member handler found]
  · intro a member
    rw [rest.text a member, first.text a member]

end World.SameAnswers

namespace Machine

/-- The machine is about to begin a call that one frame on top of these waits for. -/
structure CallsBack (frames : List Frame) (m : Machine) (call : Call) (w : Window) : Prop where
  entered : m.activity = .enter call.function w
  args : w.values m.core.context.stack = call.args
  waits : ∃ frame, m.frames = frame :: frames

/-- The function that these frames wait for is at work itself: it has not returned, and no
callback of it is about to begin. -/
structure Own (frames : List Frame) (m : Machine) : Prop where
  ongoing : m.activity = .returned → m.frames ≠ frames
  quiet : ∀ call w, ¬m.CallsBack frames call w

/-- A call that these frames wait for, through any number of pauses to its results in the window,
or to its failure. -/
inductive Concludes (base : Window) (frames : List Frame) : Machine → Nat → Except Failure (List Value) → Machine → Prop where
  | returned {m} (returned : m.activity = .returned) (back : m.frames = frames) :
      Concludes base frames m 0 (.ok (base.values m.core.context.stack)) m
  | failed {m e last} (ongoing : m.activity = .returned → m.frames ≠ frames) (halted : m.step = .inr (.failed e, last)) :
      Concludes base frames m 0 (.error e) last
  | next {m next pauses outcome last} (ongoing : m.activity = .returned → m.frames ≠ frames) (moved : m.step = .inl next)
      (rest : Concludes base frames next pauses outcome last) : Concludes base frames m pauses outcome last
  | pause {m paused reason pauses outcome last} (halted : m.step = .inr (.paused reason, paused))
      (rest : Concludes base frames paused.restarted pauses outcome last) :
      Concludes base frames m (pauses + 1) outcome last

/-- A callback, and how often it was suspended. -/
structure Exchange where
  call : Call
  pauses : Nat

/-- The run of a function from its own steps and its callbacks, each of which has concluded. -/
inductive Consults (base : Window) (frames : List Frame) :
    Machine → List Exchange → Except Failure (List Value) → Machine → Prop where
  | returned {m} (returned : m.activity = .returned) (back : m.frames = frames) :
      Consults base frames m [] (.ok (base.values m.core.context.stack)) m
  | failed {m e last} (own : m.Own frames) (halted : m.step = .inr (.failed e, last)) :
      Consults base frames m [] (.error e) last
  | own {m next exchanges outcome last} (own : m.Own frames) (moved : m.step = .inl next)
      (rest : Consults base frames next exchanges outcome last) : Consults base frames m exchanges outcome last
  | answered {m call w pauses values next exchanges outcome last} (calls : m.CallsBack frames call w)
      (concludes : m.Concludes w m.frames pauses (.ok values) next)
      (rest : Consults base frames next exchanges outcome last) :
      Consults base frames m (⟨call, pauses⟩ :: exchanges) outcome last
  | aborted {m call w pauses e last} (calls : m.CallsBack frames call w)
      (concludes : m.Concludes w m.frames pauses (.error e) last) :
      Consults base frames m [⟨call, pauses⟩] (.error e) last

/-- The call comes to this outcome by callbacks with these calls. -/
def Course (base : Window) (frames : List Frame) (calls : List Call) (outcome : Except Failure (List Value))
    (m : Machine) : Prop :=
  ∃ exchanges last, m.Consults base frames exchanges outcome last ∧ exchanges.map Exchange.call = calls

/-- The callbacks that a function makes one after another, each with its number. -/
inductive Invokes (frames : List Frame) : Machine → Nat → Machine → Call → Window → Prop where
  | now {m call w} (calls : m.CallsBack frames call w) : Invokes frames m 0 m call w
  | own {m next i n call w} (own : m.Own frames) (moved : m.step = .inl next) (rest : Invokes frames next i n call w) :
      Invokes frames m i n call w
  | later {m first w pauses values next i n call v} (calls : m.CallsBack frames first w)
      (concludes : m.Concludes w m.frames pauses (.ok values) next) (rest : Invokes frames next i n call v) :
      Invokes frames m (i + 1) n call v

/-- Each callback delivers what is laid down for it, at once or after any number of suspensions,
and the arguments answer questions afterwards as they did before. -/
def Obeys (args : List Value) (frames : List Frame) (β : Nat → Call → Except Failure (List Value)) (m : Machine) : Prop :=
  ∀ i n call w, m.Invokes frames i n call w → ∃ pauses last, n.Concludes w n.frames pauses (β i call) last ∧
    ∀ values, β i call = .ok values → n.core.world.SameAnswers args last.core.world

/-- A stretch of a function's own steps. -/
inductive Goes (frames : List Frame) : Machine → Machine → Prop where
  | here {m} : Goes frames m m
  | step {m next last} (own : m.Own frames) (moved : m.step = .inl next) (rest : Goes frames next last) :
      Goes frames m last

variable {m n next last : Machine} {base : Window} {frames : List Frame} {frame : Frame} {args : List Value}
  {β : Nat → Call → Except Failure (List Value)} {pauses : Nat} {outcome : Except Failure (List Value)}
  {calls : List Call}

theorem Concludes.sustains (concludes : m.Concludes base frames pauses outcome last) : m.core.Sustains last.core := by
  induction concludes with
  | returned => exact .refl _
  | failed _ halted => exact halted_sustains halted
  | next _ moved _ ih => exact (step_sustains moved).trans ih
  | pause halted _ ih => exact (halted_sustains halted).trans ⟨ih.retains, ih.capacity⟩

theorem Concludes.returns (concludes : m.Concludes base frames pauses outcome last) {values : List Value}
    (delivered : outcome = .ok values) : last.Returns base frames values := by
  induction concludes with
  | returned returned back =>
    cases delivered
    exact ⟨returned, back, rfl⟩
  | failed => cases delivered
  | next _ _ _ ih | pause _ _ ih => exact ih delivered

theorem Own.of_working (working : m.activity ≠ .returned) (waits : m.frames = frames) : m.Own frames := by
  refine ⟨fun returned => absurd returned working, ?_⟩
  intro call w calls
  obtain ⟨frame, longer⟩ := calls.waits
  exact List.cons_ne_self frame frames (longer.symm.trans waits)

theorem Own.of_dispatch {r : Request} {w : Window} (active : m.activity = .dispatch r w) : m.Own frames := by
  refine ⟨?_, ?_⟩
  · rw [active]
    nofun
  · intro call w calls
    cases active.symm.trans calls.entered

theorem Own.of_answered (returned : m.activity = .returned) (waits : m.frames = frame :: frames) : m.Own frames := by
  refine ⟨fun _ back => List.cons_ne_self frame frames (waits.symm.trans back), ?_⟩
  intro call w calls
  cases returned.symm.trans calls.entered

/-- A machine has one next step, so a call concludes in one way. -/
theorem Concludes.unique {outcome' : Except Failure (List Value)} {pauses' : Nat} {last' : Machine}
    (first : m.Concludes base frames pauses outcome last) (second : m.Concludes base frames pauses' outcome' last') :
    pauses' = pauses ∧ outcome' = outcome ∧ last' = last := by
  induction first generalizing pauses' with
  | returned returned back =>
    cases second with
    | returned => exact ⟨rfl, rfl, rfl⟩
    | failed ongoing | next ongoing => exact absurd back (ongoing returned)
    | pause halted =>
      cases Halted.of_step halted with
      | paused working => exact absurd returned working
  | failed ongoing halted =>
    cases second with
    | returned returned back => exact absurd back (ongoing returned)
    | failed _ halted' =>
      cases halted.symm.trans halted'
      exact ⟨rfl, rfl, rfl⟩
    | next _ moved => cases halted.symm.trans moved
    | pause halted' => cases halted.symm.trans halted'
  | next ongoing moved _ ih =>
    cases second with
    | returned returned back => exact absurd back (ongoing returned)
    | failed _ halted => cases moved.symm.trans halted
    | next _ moved' rest =>
      cases moved.symm.trans moved'
      exact ih rest
    | pause halted => cases moved.symm.trans halted
  | pause halted _ ih =>
    cases second with
    | returned returned =>
      cases Halted.of_step halted with
      | paused working => exact absurd returned working
    | failed _ halted' => cases halted.symm.trans halted'
    | next _ moved => cases halted.symm.trans moved
    | pause halted' rest =>
      cases halted.symm.trans halted'
      obtain ⟨rfl, same⟩ := ih rest
      exact ⟨rfl, same⟩

theorem CallsBack.unique {call call' : Call} {w w' : Window} (first : m.CallsBack frames call w)
    (second : m.CallsBack frames call' w') : call' = call ∧ w' = w := by
  obtain ⟨f, args⟩ := call
  obtain ⟨f', args'⟩ := call'
  cases first.entered.symm.trans second.entered
  cases first.args.symm.trans second.args
  exact ⟨rfl, rfl⟩

theorem CallsBack.not_own {call : Call} {w : Window} (calls : m.CallsBack frames call w) : ¬m.Own frames :=
  fun own => own.quiet call w calls

theorem Consults.unique {exchanges exchanges' : List Exchange} {outcome' : Except Failure (List Value)} {last' : Machine}
    (first : m.Consults base frames exchanges outcome last) (second : m.Consults base frames exchanges' outcome' last') :
    exchanges' = exchanges ∧ outcome' = outcome := by
  induction first generalizing exchanges' with
  | returned returned back =>
    cases second with
    | returned => exact ⟨rfl, rfl⟩
    | failed own | own own => exact absurd back (own.ongoing returned)
    | answered calls | aborted calls => cases returned.symm.trans calls.entered
  | failed own halted =>
    cases second with
    | returned returned back => exact absurd back (own.ongoing returned)
    | failed _ halted' =>
      cases halted.symm.trans halted'
      exact ⟨rfl, rfl⟩
    | own _ moved => cases halted.symm.trans moved
    | answered calls | aborted calls => exact absurd own calls.not_own
  | own own moved _ ih =>
    cases second with
    | returned returned back => exact absurd back (own.ongoing returned)
    | failed _ halted => cases moved.symm.trans halted
    | own _ moved' rest =>
      cases moved.symm.trans moved'
      exact ih rest
    | answered calls | aborted calls => exact absurd own calls.not_own
  | answered calls concludes _ ih =>
    cases second with
    | returned returned => cases returned.symm.trans calls.entered
    | failed own | own own => exact absurd own calls.not_own
    | answered calls' concludes' rest =>
      obtain ⟨rfl, rfl⟩ := calls.unique calls'
      obtain ⟨rfl, same, rfl⟩ := concludes.unique concludes'
      cases same
      obtain ⟨rfl, same⟩ := ih rest
      exact ⟨rfl, same⟩
    | aborted calls' concludes' =>
      obtain ⟨rfl, rfl⟩ := calls.unique calls'
      obtain ⟨_, other, _⟩ := concludes.unique concludes'
      cases other
  | aborted calls concludes =>
    cases second with
    | returned returned => cases returned.symm.trans calls.entered
    | failed own | own own => exact absurd own calls.not_own
    | answered calls' concludes' =>
      obtain ⟨rfl, rfl⟩ := calls.unique calls'
      obtain ⟨_, other, _⟩ := concludes.unique concludes'
      cases other
    | aborted calls' concludes' =>
      obtain ⟨rfl, rfl⟩ := calls.unique calls'
      obtain ⟨rfl, same, _⟩ := concludes.unique concludes'
      cases same
      exact ⟨rfl, rfl⟩

theorem Course.unique {calls' : List Call} {outcome' : Except Failure (List Value)}
    (first : m.Course base frames calls outcome) (second : m.Course base frames calls' outcome') :
    calls' = calls ∧ outcome' = outcome := by
  obtain ⟨exchanges, last, consults, rfl⟩ := first
  obtain ⟨exchanges', last', consults', rfl⟩ := second
  obtain ⟨rfl, same⟩ := consults.unique consults'
  exact ⟨rfl, same⟩

namespace Invokes

variable {i : Nat} {call : Call} {v : Window}

theorem not_after (invokes : m.Invokes frames i n call v) (returned : m.activity = .returned) : m.frames ≠ frames := by
  cases invokes with
  | now calls | later calls => cases returned.symm.trans calls.entered
  | own own => exact own.ongoing returned

theorem of_own (invokes : m.Invokes frames i n call v) (own : m.Own frames) (moved : m.step = .inl next) :
    next.Invokes frames i n call v := by
  cases invokes with
  | now calls | later calls => exact absurd own calls.not_own
  | own _ moved' rest =>
    cases moved.symm.trans moved'
    exact rest

theorem of_callsBack {first : Call} {w : Window} {values : List Value} (invokes : m.Invokes frames i n call v)
    (calls : m.CallsBack frames first w) (concludes : m.Concludes w m.frames pauses (.ok values) next) :
    (i = 0 ∧ n = m ∧ call = first ∧ v = w) ∨ ∃ j, i = j + 1 ∧ next.Invokes frames j n call v := by
  cases invokes with
  | now calls' =>
    obtain ⟨rfl, rfl⟩ := calls.unique calls'
    exact .inl ⟨rfl, rfl, rfl, rfl⟩
  | own own => exact absurd own calls.not_own
  | later calls' concludes' rest =>
    obtain ⟨rfl, rfl⟩ := calls.unique calls'
    obtain ⟨_, _, rfl⟩ := concludes.unique concludes'
    exact .inr ⟨_, rfl, rest⟩

end Invokes

namespace Goes

theorem trans (start : m.Goes frames n) (goes : n.Goes frames last) : m.Goes frames last := by
  induction start with
  | here => exact goes
  | step own moved _ ih => exact .step own moved (ih goes)

theorem course (goes : m.Goes frames n) (course : n.Course base frames calls outcome) :
    m.Course base frames calls outcome := by
  induction goes with
  | here => exact course
  | step own moved _ ih =>
    obtain ⟨exchanges, last, consults, listed⟩ := ih course
    exact ⟨exchanges, last, .own own moved consults, listed⟩

theorem invokes {i : Nat} {call : Call} {w : Window} {k : Machine} (goes : m.Goes frames n)
    (invokes : m.Invokes frames i k call w) : n.Invokes frames i k call w := by
  induction goes with
  | here => exact invokes
  | step own moved _ ih => exact ih (invokes.of_own own moved)

theorem obeys (goes : m.Goes frames n) (obeys : m.Obeys args frames β) : n.Obeys args frames β := by
  induction goes with
  | here => exact obeys
  | step own moved _ ih =>
    apply ih
    intro i n call w invokes
    exact obeys i n call w (.own own moved invokes)

end Goes

theorem step_dispatch {r : Request} {w : Window} {a : Activity} {d : Core} (active : m.activity = .dispatch r w)
    (served : r.serve w m.core = (.ok a, d)) : m.step = .inl { m with core := d, activity := a } := by
  rw [step_working active (by simp)]
  change m.after ((r.serve w >>= fun a => pure (.go a)) m.core) = _
  rw [Core.bind_apply, served]
  rfl

theorem step_dispatch_failed {r : Request} {w : Window} {e : Failure} {d : Core} (active : m.activity = .dispatch r w)
    (served : r.serve w m.core = (.error e, d)) : ∃ last, m.step = .inr (.failed e, last) := by
  rw [step_working active (by simp)]
  change ∃ last, m.after ((r.serve w >>= fun a => pure (.go a)) m.core) = _
  rw [Core.bind_apply, served]
  exact ⟨_, rfl⟩

end Machine

namespace Window

open RegisterStack

variable {w : Window} {s : RegisterStack}

theorem ret_full {values : List Value} (inside : w.offset ≤ s.capacity) (full : ¬w.offset + values.length ≤ s.capacity) :
    ∃ t, w.ret values s = (.error (.insufficientSpace values.length (s.capacity - w.offset)), t) := by
  obtain ⟨t, placed, empty, capacity⟩ := setTop_shows inside
  have top : t.top = w.offset := empty.top
  refine ⟨t, ?_⟩
  rw [ret, RegisterStack.bind_apply, placed]
  change RegisterStack.push values t = _
  rw [push_apply, top, capacity, if_pos (by omega)]

/-- An emptied window is where the cursor is, so values that are pushed go there. -/
theorem setTop_pushAll (w : Window) (values : List Value) (s : RegisterStack) :
    (w.setTop 0 >>= fun _ => w.pushAll values) s = w.ret values s := by
  rw [ret, RegisterStack.bind_apply, RegisterStack.bind_apply, setTop, setTop_apply]
  by_cases beyond : s.capacity < w.offset + 0
  · simp only [beyond, if_true]
  · simp only [beyond, if_false]
    change (if w.offset + 0 < w.offset then _ else _ : StackM Unit) _ = _
    rw [if_neg (by omega)]

/-- There has to be a slot more for a value that is put in front of another. -/
theorem prepend_full (v : Value) {held : Value} (shows : w.Shows s [held]) (full : ¬w.offset + 2 ≤ s.capacity) :
    ∃ t, w.prepend v s = (.error (.insufficientSpace 1 0), t) := by
  have top : s.top = w.offset + 1 := shows.top
  have fits := shows.fits
  obtain ⟨t, placed, empty, capacity⟩ := setTop_shows (w := w) (s := s) (by omega)
  obtain ⟨r, put, single, same⟩ := empty.push_first v (by omega)
  have height : r.top = w.offset + 1 := single.top
  refine ⟨r, ?_⟩
  change (w.setTop 0 >>= fun _ => w.push v >>= fun _ => w.pushAll (w.values s)) s = _
  rw [RegisterStack.bind_apply, placed, shows.values]
  change (w.push v >>= fun _ => w.pushAll [held]) t = _
  rw [RegisterStack.bind_apply, put]
  change (if r.top < w.offset then _ else _ : StackM Unit) r = _
  rw [if_neg (by omega)]
  have none : r.capacity - r.top = 0 := by omega
  rw [push_apply, none]
  rfl

end Window

/-- A call in the function's own window leaves the arguments where the results were to be. -/
theorem Action.perform_call (f : FunctionId) (w : Window) (callee : Value) (args : List Value) (state : Saved) (c : Core) :
    (Action.call callee args 0 state).perform f w c = ((do
      Core.onStack (w.ret args)
      return .call ⟨f, w, some state⟩ (.value callee) w : CoreM Move)) c := by
  have placed := Window.setTop_pushAll w args c.context.stack
  rw [RegisterStack.bind_apply] at placed
  simp only [Action.perform, Core.bind_apply, Core.onStack_apply, ← placed]
  rcases w.setTop 0 c.context.stack with ⟨_ | _, t⟩ <;> rfl

/-- The same world, over as many slots. -/
structure Core.Level (c d : Core) : Prop where
  world : d.world = c.world
  capacity : d.context.stack.capacity = c.context.stack.capacity

theorem Core.Level.trans {c d e : Core} (first : c.Level d) (rest : d.Level e) : c.Level e :=
  ⟨rest.world.trans first.world, rest.capacity.trans first.capacity⟩

/-- What becomes of a question: it is answered at once, or a function is called for the answer, or
there is none. -/
inductive Consultation where
  | told (v : Value)
  | asked (call : Call)
  | refused (e : Failure)

namespace Machine

/-- Where the run is when a question has been put for a frame, and what is to come of it. -/
structure Waits (frames : List Frame) (frame : Frame) (m n : Machine) : Prop where
  goes : m.Goes frames n
  level : m.core.Level n.core
  frames : n.frames = frame :: frames

inductive Meets (base : Window) (frames : List Frame) (frame : Frame) (m : Machine) : Consultation → Prop where
  | told {v n} (waits : m.Waits frames frame n) (returned : n.activity = .returned)
      (held : base.values n.core.context.stack = [v]) : Meets base frames frame m (.told v)
  | asked {call n} (waits : m.Waits frames frame n) (entered : n.activity = .enter call.function base)
      (args : base.values n.core.context.stack = call.args) : Meets base frames frame m (.asked call)
  | refused {e n last} (goes : m.Goes frames n) (own : n.Own frames) (halted : n.step = .inr (.failed e, last)) :
      Meets base frames frame m (.refused e)

variable {m n : Machine} {base : Window} {frames : List Frame} {frame : Frame} {args : List Value} {capacity : Nat}
  {w : World} {β : Nat → Call → Except Failure (List Value)} {outcome : Except Failure (List Value)} {calls : List Call}

theorem Meets.of_waits {c : Consultation} (waits : m.Waits frames frame n) (meets : n.Meets base frames frame c) :
    m.Meets base frames frame c := by
  have extended {k : Machine} (later : n.Waits frames frame k) : m.Waits frames frame k :=
    ⟨waits.goes.trans later.goes, waits.level.trans later.level, later.frames⟩
  cases meets with
  | told later returned held => exact .told (extended later) returned held
  | asked later entered given => exact .asked (extended later) entered given
  | refused goes own halted => exact .refused (waits.goes.trans goes) own halted

theorem Waits.refl (waiting : m.frames = frame :: frames) : m.Waits frames frame m :=
  ⟨.here, ⟨rfl, rfl⟩, waiting⟩

theorem meets_thrown {r : Request} {e : Failure} {d : Core} (active : m.activity = .dispatch r base)
    (served : r.serve base m.core = (.error e, d)) : m.Meets base frames frame (.refused e) := by
  obtain ⟨last, halted⟩ := step_dispatch_failed active served
  exact .refused .here (.of_dispatch active) halted

theorem waits_served {r : Request} {a : Activity} {d : Core} (active : m.activity = .dispatch r base)
    (waiting : m.frames = frame :: frames) (served : r.serve base m.core = (.ok a, d)) (level : m.core.Level d) :
    m.Waits frames frame { m with core := d, activity := a } :=
  ⟨.step (.of_dispatch active) (step_dispatch active served) .here, level, waiting⟩

/-- A machine that serves a request for a frame, in a world that answers like the one given. -/
structure Serves (args : List Value) (base : Window) (capacity : Nat) (w : World) (frames : List Frame) (frame : Frame)
    (r : Request) (m : Machine) : Prop where
  active : m.activity = .dispatch r base
  waits : m.frames = frame :: frames
  slots : m.core.context.stack.capacity = capacity
  answers : w.SameAnswers args m.core.world

/-- The request comes to the same wherever it is served. -/
def Settled (args : List Value) (base : Window) (capacity : Nat) (w : World) (r : Request) : Prop :=
  ∃ c, ∀ frames frame m, Serves args base capacity w frames frame r m → m.Meets base frames frame c

/-- A request that puts values into the window, from where the rest is settled. -/
theorem settled_of_ret {r : Request} (values : List Value) (a : Activity) (c : Consultation)
    (inside : base.offset ≤ capacity)
    (served : ∀ {frames frame m}, Serves args base capacity w frames frame r m →
      r.serve base m.core = (Core.onStack (base.ret values) >>= fun _ => pure a) m.core)
    (rest : ∀ {frames frame n}, n.frames = frame :: frames → n.core.context.stack.capacity = capacity →
      w.SameAnswers args n.core.world → n.activity = a → base.Shows n.core.context.stack values →
      Meets base frames frame n c) : Settled args base capacity w r := by
  by_cases fits : base.offset + values.length ≤ capacity
  · refine ⟨c, fun frames frame m serves => ?_⟩
    obtain ⟨t, left, shows, same⟩ := Window.ret_shows (s := m.core.context.stack) (serves.slots ▸ fits)
    have placed : r.serve base m.core = (.ok a, m.core.withStack t) := by
      rw [served serves, Core.bind_apply, Core.onStack_apply, left]
      rfl
    refine .of_waits (waits_served serves.active serves.waits placed ⟨rfl, same⟩) ?_
    exact rest serves.waits (same.trans serves.slots) serves.answers rfl shows
  · refine ⟨.refused (.stack (.insufficientSpace values.length (capacity - base.offset))), fun frames frame m serves => ?_⟩
    have slots := serves.slots
    subst slots
    obtain ⟨t, refused⟩ := Window.ret_full inside fits
    refine meets_thrown (d := m.core.withStack t) serves.active ?_
    rw [served serves, Core.bind_apply, Core.onStack_apply, refused]

theorem index_settled (inside : base.offset ≤ capacity) (w : World) {object : Value} (member : object ∈ args)
    (key : Value) : Settled args base capacity w (.index object key) := by
  have same {frames frame m} (serves : Serves args base capacity w frames frame (.index object key) m) :=
    serves.answers.lookup object member key
  cases found : w.lookup key indexChainLimit object with
  | error e =>
    refine ⟨.refused (.script e), fun frames frame m serves => meets_thrown (d := m.core) serves.active ?_⟩
    simp only [Request.serve, Core.bind_apply, Core.getWorld_apply, same serves, found]
    rfl
  | ok result =>
    cases result with
    | found v =>
      refine settled_of_ret [v] .returned (.told v) inside ?_ ?_
      · intro frames frame m serves
        simp only [Request.serve, Core.bind_apply, Core.getWorld_apply, same serves, found]
      · intro frames frame n waiting _ _ returned shows
        exact .told (.refl waiting) returned shows.values
    | handler g owner =>
      refine settled_of_ret [owner, key] (.enter g base) (.asked ⟨g, [owner, key]⟩) inside ?_ ?_
      · intro frames frame m serves
        simp only [Request.serve, Core.bind_apply, Core.getWorld_apply, same serves, found]
      · intro frames frame n waiting _ _ entered shows
        exact .asked (.refl waiting) entered shows.values

theorem meets_function {g : FunctionId} (active : m.activity = .dispatch (.value (.function g)) base)
    (waiting : m.frames = frame :: frames) :
    m.Meets base frames frame (.asked ⟨g, base.values m.core.context.stack⟩) :=
  .asked (waits_served active waiting rfl ⟨rfl, rfl⟩) rfl rfl

/-- A handler is called with a value, which the window holds. One that is no function is put in
front of the value, for its own handler. -/
theorem handler_meets (base : Window) (capacity : Nat) (w : World) (handler v : Value) :
    ∃ c, ∀ frames frame n, n.frames = frame :: frames → n.core.context.stack.capacity = capacity →
      n.core.world.metamethod? handler "__call" = w.metamethod? handler "__call" →
      n.activity = .dispatch (.value handler) base → base.Shows n.core.context.stack [v] →
      Meets base frames frame n c := by
  by_cases function : ∃ g, handler = .function g
  · obtain ⟨g, rfl⟩ := function
    refine ⟨.asked ⟨g, [v]⟩, fun frames frame n waiting _ _ active shows => ?_⟩
    have meets := meets_function active waiting
    rw [shows.values] at meets
    exact meets
  · have served (n : Machine) := Request.serve_value (fun g same => function ⟨g, same⟩) base n.core
    by_cases callable : ∃ g, w.metamethod? handler "__call" = some (.function g)
    · obtain ⟨g, found⟩ := callable
      by_cases fits : base.offset + 2 ≤ capacity
      · refine ⟨.asked ⟨g, [handler, v]⟩, fun frames frame n waiting slots same active shows => ?_⟩
        have room : base.offset + (base.values n.core.context.stack).length + 1 ≤ n.core.context.stack.capacity := by
          rw [shows.values, slots]
          exact fits
        obtain ⟨t, put, both, kept⟩ := Window.prepend_shows handler room
        have entered : (Request.value handler).serve base n.core = (.ok (.enter g base), n.core.withStack t) := by
          rw [served, same, found]
          simp only [Request.callThrough, Core.bind_apply, Core.onStack_apply, put]
          rfl
        rw [shows.values] at both
        exact .asked (waits_served active waiting entered ⟨rfl, kept⟩) rfl both.values
      · refine ⟨.refused (.stack (.insufficientSpace 1 0)), fun frames frame n waiting slots same active shows => ?_⟩
        obtain ⟨t, refused⟩ := Window.prepend_full handler shows (slots ▸ fits)
        refine meets_thrown (d := n.core.withStack t) active ?_
        rw [served, same, found]
        simp only [Request.callThrough, Core.bind_apply, Core.onStack_apply, refused]
    · refine ⟨.refused (.script (.notCallable handler.kind)), fun frames frame n waiting _ same active shows => ?_⟩
      refine meets_thrown (d := n.core) active ?_
      rw [served, same]
      generalize w.metamethod? handler "__call" = found at callable
      rcases found with _ | found
      · rfl
      · cases found with
        | function g => exact absurd ⟨g, rfl⟩ callable
        | _ => rfl

theorem text_settled (inside : base.offset ≤ capacity) (w : World) {v : Value} (member : v ∈ args) :
    Settled args base capacity w (.text v) := by
  have same {frames frame m} (serves : Serves args base capacity w frames frame (.text v) m) :=
    serves.answers.handler v member
  cases found : w.metamethod? v "__tostring" with
  | none =>
    refine settled_of_ret [.str (w.defaultText v)] .returned (.told (.str (w.defaultText v))) inside ?_ ?_
    · intro frames frame m serves
      simp only [Request.serve, Core.bind_apply, Core.getWorld_apply, same serves, found, serves.answers.text v member]
    · intro frames frame n waiting _ _ returned shows
      exact .told (.refl waiting) returned shows.values
  | some handler =>
    obtain ⟨c, meets⟩ := handler_meets base capacity w handler v
    refine settled_of_ret [v] (.dispatch (.value handler) base) c inside ?_ ?_
    · intro frames frame m serves
      simp only [Request.serve, Core.bind_apply, Core.getWorld_apply, same serves, found]
    · intro frames frame n waiting slots answers active shows
      exact meets frames frame n waiting slots (answers.caller v member handler found) active shows

/-- A function of the library is about to answer, in a world like the one given. -/
structure Replies (b : Builtin) (args : List Value) (base : Window) (capacity : Nat) (w : World)
    (answer : Except Failure Action) (f : FunctionId) (m : Machine) : Prop where
  working : m.activity ≠ .returned
  callee : m.core.world.callable f = .builtin b
  slots : m.core.context.stack.capacity = capacity
  alike : w.SameAnswers args m.core.world
  answer : m.activity.step m.core = m.core.performed f base (answer, m.core.world)

variable {b : Builtin} {f : FunctionId} {state : Saved}

theorem waits_called {r : Request} {d : Core} (working : m.activity ≠ .returned)
    (stepped : m.activity.step m.core = (.ok (.call frame r base), d)) (level : m.core.Level d) :
    m.Waits m.frames frame { m with core := d, activity := .dispatch r base, callers := frame :: m.callers } := by
  refine ⟨.step (.of_working working rfl) ?_ .here, level, rfl⟩
  rw [step_working rfl working, stepped]
  rfl

theorem meets_failed {e : Failure} {d : Core} (working : m.activity ≠ .returned)
    (stepped : m.activity.step m.core = (.error e, d)) : m.Meets base m.frames frame (.refused e) := by
  have halted : m.step = .inr (({ m with core := d } : Machine).fail e) := by
    rw [step_working rfl working, stepped]
    rfl
  exact .refused .here (.of_working working rfl) halted

/-- A request that is settled, asked by a function. -/
theorem meets_settled {a : Action} {r : Request} {c : Consultation}
    (settled : ∀ frames frame m, Serves args base capacity w frames frame r m → m.Meets base frames frame c)
    (asked : ∀ c : Core, a.perform f base c = (.ok (.call ⟨f, base, some state⟩ r base), c))
    (replies : Replies b args base capacity w (.ok a) f m) : m.Meets base m.frames ⟨f, base, some state⟩ c := by
  have stepped := replies.answer.trans (asked m.core)
  exact .of_waits (waits_called replies.working stepped ⟨rfl, rfl⟩)
    (settled _ _ _ ⟨rfl, rfl, replies.slots, replies.alike⟩)

/-- What a function asks comes to the same wherever it is asked. -/
theorem asks_settled {a : Action} (asks : a.Asks args state) (inside : base.offset ≤ capacity) (w : World) :
    ∃ c, ∀ b f m, Replies b args base capacity w (.ok a) f m → m.Meets base m.frames ⟨f, base, some state⟩ c := by
  cases asks with
  | index member key =>
    obtain ⟨c, settled⟩ := index_settled inside w member key
    exact ⟨c, fun b f m replies => meets_settled settled (fun _ => rfl) replies⟩
  | text member =>
    obtain ⟨c, settled⟩ := text_settled inside w member
    exact ⟨c, fun b f m replies => meets_settled settled (fun _ => rfl) replies⟩
  | call g captures =>
    by_cases fits : base.offset + captures.length ≤ capacity
    · refine ⟨.asked ⟨g, captures⟩, fun b f m replies => ?_⟩
      obtain ⟨t, left, shows, same⟩ := Window.ret_shows (s := m.core.context.stack) (replies.slots ▸ fits)
      have stepped : m.activity.step m.core =
          (.ok (.call ⟨f, base, some state⟩ (.value (.function g)) base), m.core.withStack t) := by
        refine (replies.answer.trans (Action.perform_call f base _ captures state m.core)).trans ?_
        rw [Core.bind_apply, Core.onStack_apply, left]
        rfl
      refine .of_waits (waits_called replies.working stepped ⟨rfl, same⟩) ?_
      have meets := meets_function (m := { m with
        core := m.core.withStack t, activity := .dispatch (.value (.function g)) base
        callers := ⟨f, base, some state⟩ :: m.callers }) rfl rfl
      rwa [show base.values (m.core.withStack t).context.stack = captures from shows.values] at meets
    · refine ⟨.refused (.stack (.insufficientSpace captures.length (capacity - base.offset))), fun b f m replies => ?_⟩
      have slots := replies.slots
      subst slots
      obtain ⟨t, refused⟩ := Window.ret_full inside fits
      refine meets_failed (d := m.core.withStack t) replies.working ?_
      refine (replies.answer.trans (Action.perform_call f base _ captures state m.core)).trans ?_
      rw [Core.bind_apply, Core.onStack_apply, refused]

/-- The frame that asked goes on with what the window holds. -/
theorem goes_on (returned : m.activity = .returned) (waiting : m.frames = ⟨f, base, some state⟩ :: frames)
    (callee : m.core.world.callable f = .builtin b) (able : b.isResumable = true) :
    ∃ n, m.Goes frames n ∧ n.core = m.core ∧ n.frames = frames ∧ n.activity = .resume f base state := by
  have resumable : (m.core.world.callable f).isResumable = true := by
    rw [callee]
    exact able
  obtain ⟨callers, pending, rest, moved⟩ := step_returned returned waiting (.inr resumable)
  exact ⟨_, .step (.of_answered returned waiting) moved .here, rfl, rest, rfl⟩

theorem course_failed {e : Failure} (own : m.Own frames) (halted : m.step = .inr (.failed e, n)) :
    m.Course base frames [] (.error e) :=
  ⟨[], n, .failed own halted, rfl⟩

theorem course_ended (args : List Value) (inside : base.offset ≤ capacity) (results : List Value) :
    ∃ outcome, ∀ b w f m, Replies b args base capacity w (.ok (.ret results)) f m →
      m.Course base m.frames [] outcome := by
  by_cases fits : base.offset + results.length ≤ capacity
  · refine ⟨.ok results, fun b w f m replies => ?_⟩
    obtain ⟨t, shows, performed⟩ := Core.performed_ret (f := f) (v := m.core.world) (replies.slots ▸ fits)
    let after : Machine := { m with core := m.core.withStack t, activity := .returned }
    have moved : m.step = .inl after := by
      rw [step_working rfl replies.working, replies.answer, performed]
      rfl
    have ends : after.Course base m.frames [] (.ok (base.values after.core.context.stack)) :=
      ⟨[], after, .returned rfl rfl, rfl⟩
    rw [show base.values after.core.context.stack = results from shows.values] at ends
    exact (Goes.step (.of_working replies.working rfl) moved .here).course ends
  · refine ⟨.error (.stack (.insufficientSpace results.length (capacity - base.offset))), fun b w f m replies => ?_⟩
    have slots := replies.slots
    subst slots
    obtain ⟨t, refused⟩ := Window.ret_full inside fits
    apply course_failed (n := (fail { m with core := m.core.withStack t } _).2) (.of_working replies.working rfl)
    rw [step_working rfl replies.working, replies.answer]
    simp only [Core.performed, Action.perform, Core.bind_apply, Core.onStack_apply, refused]
    rfl

/-- The frame of a library function is about to go on with what its question has come to. -/
structure Resumes (b : Builtin) (args : List Value) (base : Window) (capacity : Nat) (w : World) (f : FunctionId)
    (state : Saved) (frames : List Frame) (held : List Value) (m : Machine) : Prop where
  returned : m.activity = .returned
  waits : m.frames = ⟨f, base, some state⟩ :: frames
  callee : m.core.world.callable f = .builtin b
  slots : m.core.context.stack.capacity = capacity
  alike : w.SameAnswers args m.core.world
  held : base.values m.core.context.stack = held

theorem Resumes.of_waits {held : List Value} {a : Action} (replies : Replies b args base capacity w (.ok a) f m)
    (waits : m.Waits m.frames ⟨f, base, some state⟩ n) (returned : n.activity = .returned)
    (holds : base.values n.core.context.stack = held) : Resumes b args base capacity w f state m.frames held n :=
  { returned
    waits := waits.frames
    callee := by rw [waits.level.world, replies.callee]
    slots := waits.level.capacity.trans replies.slots
    alike := by rw [waits.level.world]; exact replies.alike
    held := holds }

theorem Resumes.of_concludes {held : List Value} {a : Action} (replies : Replies b args base capacity w (.ok a) f m)
    (waits : m.Waits m.frames ⟨f, base, some state⟩ n) (able : b.isResumable = true) {pauses : Nat} {last : Machine}
    (concludes : n.Concludes base n.frames pauses (.ok held) last)
    (kept : n.core.world.SameAnswers args last.core.world) :
    Resumes b args base capacity w f state m.frames held last := by
  have sustains := concludes.sustains
  have callee : n.core.world.callable f = .builtin b := by rw [waits.level.world, replies.callee]
  have returns := concludes.returns rfl
  exact
    { returned := returns.activity
      waits := returns.frames.trans waits.frames
      callee := (sustains.retains f (by rw [callee]; exact able)).trans callee
      slots := sustains.capacity.trans (waits.level.capacity.trans replies.slots)
      alike := replies.alike.trans (waits.level.world ▸ kept)
      held := returns.results }

theorem Resumes.course {held : List Value} {answer : Except Failure Action}
    (resumes : Resumes b args base capacity w f state frames held m)
    (able : b.isResumable = true) (told : ∀ w : World, b.resume state held w = (answer, w))
    (alike : ∀ f m, Replies b args base capacity w answer f m → m.Obeys args m.frames β →
      m.Course base m.frames calls outcome)
    (obeys : m.Obeys args frames β) : m.Course base frames calls outcome := by
  obtain ⟨n, goes, core, back, active⟩ := goes_on resumes.returned resumes.waits resumes.callee able
  have replies : Replies b args base capacity w answer f n := by
    refine ⟨by simp [active], ?_, ?_, ?_, ?_⟩
    · rw [core, resumes.callee]
    · rw [core, resumes.slots]
    · rw [core]
      exact resumes.alike
    · rw [active, Activity.step_resume, core, resumes.callee, Callable.resume_builtin, resumes.held, told]
  subst back
  exact goes.course (alike f n replies (goes.obeys obeys))

theorem course_aborted {frame : Frame} {call : Call} {e : Failure} (waits : m.Waits m.frames frame n)
    (entered : n.activity = .enter call.function base) (given : base.values n.core.context.stack = call.args)
    (delivered : β 0 call = .error e) (obeys : m.Obeys args m.frames β) : m.Course base m.frames [call] (.error e) := by
  have calls : n.CallsBack m.frames call base := ⟨entered, given, frame, waits.frames⟩
  obtain ⟨pauses, last, concludes, _⟩ := waits.goes.obeys obeys 0 n call base (.now calls)
  rw [delivered] at concludes
  exact waits.goes.course ⟨[⟨call, pauses⟩], last, .aborted calls concludes, rfl⟩

theorem course_answered {a : Action} {call : Call} {values : List Value} (able : b.isResumable = true)
    (replies : Replies b args base capacity w (.ok a) f m) (waits : m.Waits m.frames ⟨f, base, some state⟩ n)
    (entered : n.activity = .enter call.function base) (given : base.values n.core.context.stack = call.args)
    (delivered : β 0 call = .ok values) (obeys : m.Obeys args m.frames β)
    (rest : ∀ last, Resumes b args base capacity w f state m.frames values last →
      last.Obeys args m.frames (fun i => β (i + 1)) → last.Course base m.frames calls outcome) :
    m.Course base m.frames (call :: calls) outcome := by
  have back : n.CallsBack m.frames call base := ⟨entered, given, _, waits.frames⟩
  have obeys := waits.goes.obeys obeys
  obtain ⟨pauses, last, concludes, kept⟩ := obeys 0 n call base (.now back)
  rw [delivered] at concludes
  have resumes := Resumes.of_concludes replies waits able concludes (kept values delivered)
  obtain ⟨exchanges, final, consults, listed⟩ := rest last resumes fun i k call v invokes =>
    obeys (i + 1) k call v (.later back concludes invokes)
  exact waits.goes.course ⟨⟨call, pauses⟩ :: exchanges, final, .answered back concludes consults, by rw [← listed]; rfl⟩

/-- What callbacks deliver settles the rest of a call, from any of its answers on. The induction is
on how much there is left to ask. -/
theorem replies_alike {bound : Nat} {answer : Except Failure Action} (answers : b.Answers args bound answer)
    (inside : base.offset ≤ capacity) (w : World) (β : Nat → Call → Except Failure (List Value)) :
    ∃ calls outcome, ∀ f m, Replies b args base capacity w answer f m → m.Obeys args m.frames β →
      m.Course base m.frames calls outcome := by
  induction bound using Nat.strong_induction_on generalizing answer β with
  | _ bound ih =>
    cases answers with
    | failed e =>
      refine ⟨[], .error e, fun f m replies _ => ?_⟩
      apply course_failed (n := (m.fail e).2) (.of_working replies.working rfl)
      rw [step_working rfl replies.working, replies.answer]
      rfl
    | ended results =>
      obtain ⟨outcome, ends⟩ := course_ended args inside results
      exact ⟨[], outcome, fun f m replies _ => ends b w f m replies⟩
    | @asks a state asks ready fewer =>
      have able := ready.callsBack.isResumable
      obtain ⟨c, settled⟩ := asks_settled asks inside w
      cases c with
      | refused e =>
        refine ⟨[], .error e, fun f m replies _ => ?_⟩
        cases settled b f m replies with
        | refused goes own halted => exact goes.course (course_failed own halted)
      | told v =>
        obtain ⟨answer, told, answers⟩ := Builtin.resume_answers ready [v]
        obtain ⟨calls, outcome, alike⟩ := ih state.rounds fewer answers β
        refine ⟨calls, outcome, fun f m replies obeys => ?_⟩
        cases settled b f m replies with
        | told waits returned held =>
          have resumes := Resumes.of_waits replies waits returned held
          exact waits.goes.course (resumes.course able told alike (waits.goes.obeys obeys))
      | asked call =>
        cases delivered : β 0 call with
        | error e =>
          refine ⟨[call], .error e, fun f m replies obeys => ?_⟩
          cases settled b f m replies with
          | asked waits entered given => exact course_aborted waits entered given delivered obeys
        | ok values =>
          obtain ⟨answer, told, answers⟩ := Builtin.resume_answers ready values
          obtain ⟨calls, outcome, alike⟩ := ih state.rounds fewer answers fun i => β (i + 1)
          refine ⟨call :: calls, outcome, fun f m replies obeys => ?_⟩
          cases settled b f m replies with
          | asked waits entered given =>
            apply course_answered able replies waits entered given delivered obeys
            intro last resumes obeys
            exact resumes.course able told alike obeys

/-- What callbacks deliver settles a call of the library: the callbacks that are made, one after
another with their arguments, and the results or the failure in the end. It makes no difference to
any of them which callbacks deliver at once and which are suspended first, how often, and what else
is being run. -/
theorem library_course {b : Builtin} (callsBack : b.CallsBack) (args : List Value) (base : Window) (capacity : Nat)
    (w : World) (β : Nat → Call → Except Failure (List Value)) :
    ∃ calls outcome, ∀ (f : FunctionId) (m : Machine), m.activity = .enter f base →
      m.core.world.callable f = .builtin b → base.Shows m.core.context.stack args →
      m.core.context.stack.capacity = capacity → w.SameAnswers args m.core.world → m.Obeys args m.frames β →
      m.Course base m.frames calls outcome ∧
        ∀ calls' outcome', m.Course base m.frames calls' outcome' → calls' = calls ∧ outcome' = outcome := by
  obtain ⟨answer, told, bound, answers⟩ := Builtin.invoke_answers callsBack args
  by_cases inside : base.offset ≤ capacity
  · obtain ⟨calls, outcome, alike⟩ := replies_alike answers inside w β
    refine ⟨calls, outcome, fun f m entered callee shows slots same obeys => ?_⟩
    have replies : Replies b args base capacity w answer f m := by
      refine ⟨by simp [entered], callee, slots, same, ?_⟩
      rw [entered, Activity.step_enter, callee, Callable.invoke_builtin, shows.values, told]
    have course := alike f m replies obeys
    exact ⟨course, fun _ _ other => course.unique other⟩
  · refine ⟨[], .ok [], fun f m _ _ shows slots _ _ => absurd ?_ inside⟩
    have top := shows.top
    have fits := shows.fits
    omega

private def shouting : HostFunction where
  name := "shout"
  isResumable := true
  invoke := fun args => { outcome := .ok (.suspend .yield (.arguments args)) }
  resume := fun _ _ => { outcome := .ok (.ret [.str "x"]) }

private def shop : World := { functions := #[.builtin .gsub, .host shouting] }

private def replacing : Machine :=
  { core := ⟨shop, ⟨⟨#[.str "ab", .str "b", .function ⟨1⟩, .nil], 3⟩, Budget.new {}, true⟩⟩
    activity := .enter ⟨0⟩ ⟨0⟩ }

private theorem working_of_function {a : Activity} {f : FunctionId} (active : a.function? = some f) : a ≠ .returned := by
  intro returned
  rw [returned] at active
  cases active

private theorem opening : replacing.Goes [] (replacing.driven 2) := by
  have first : replacing.step = .inl (replacing.driven 1) := step_driven (n := 0) (by decide +kernel)
  have second : (replacing.driven 1).step = .inl (replacing.driven 2) := step_driven (by decide +kernel)
  have dispatched : (replacing.driven 1).activity = .dispatch (.value (.function ⟨1⟩)) ⟨0⟩ := by cbv
  exact .step (.of_working (by simp [replacing]) rfl) first (.step (.of_dispatch dispatched) second .here)

private theorem shouted : (replacing.driven 2).CallsBack [] ⟨⟨1⟩, [.str "b"]⟩ ⟨0⟩ :=
  ⟨by cbv, by decide +kernel, List.length_eq_one_iff.mp (by decide +kernel)⟩

/-- The callback is suspended once before it delivers. -/
private theorem shout_concludes :
    (replacing.driven 2).Concludes ⟨0⟩ (replacing.driven 2).frames 1 (.ok [.str "x"]) (replacing.driven 5) := by
  obtain ⟨paused, halted⟩ : ∃ paused, (replacing.driven 2).step = .inr (.paused .yield, paused) := ⟨_, by cbv⟩
  have restarted : replacing.driven 3 = paused.restarted := by
    rw [driven_add replacing 2 1, driven_paused halted, driven]
  have resumed : (replacing.driven 3).step = .inl (replacing.driven 4) := step_driven (by decide +kernel)
  have returned : (replacing.driven 4).step = .inl (replacing.driven 5) := step_driven (by decide +kernel)
  have longer : (replacing.driven 3).frames ≠ (replacing.driven 2).frames :=
    fun same => absurd (congrArg List.length same) (by decide +kernel)
  have working : (replacing.driven 4).activity ≠ .returned := working_of_function (f := ⟨1⟩) (by decide +kernel)
  have results : (⟨0⟩ : Window).values (replacing.driven 5).core.context.stack = [.str "x"] := by decide +kernel
  have back : (replacing.driven 5).frames = (replacing.driven 2).frames := by cbv
  have delivered : (replacing.driven 5).Concludes ⟨0⟩ (replacing.driven 2).frames 0 (.ok [.str "x"])
      (replacing.driven 5) := results ▸ .returned (Activity.returned_of_window? (by decide +kernel)) back
  refine .pause halted ?_
  rw [← restarted]
  exact .next (fun _ => longer) resumed (.next (fun back => absurd back working) returned delivered)

private theorem closing : (replacing.driven 5).Goes [] (replacing.driven 7) := by
  have resumed : (replacing.driven 5).step = .inl (replacing.driven 6) := step_driven (by decide +kernel)
  have ended : (replacing.driven 6).step = .inl (replacing.driven 7) := step_driven (by decide +kernel)
  obtain ⟨frame, waits⟩ : ∃ frame, (replacing.driven 5).frames = [frame] := List.length_eq_one_iff.mp (by decide +kernel)
  have returned : (replacing.driven 5).activity = .returned := Activity.returned_of_window? (by decide +kernel)
  have working : (replacing.driven 6).activity ≠ .returned := working_of_function (f := ⟨0⟩) (by decide +kernel)
  have alone : (replacing.driven 6).frames = [] := List.length_eq_zero_iff.mp (by decide +kernel)
  exact .step (.of_answered returned waits) resumed (.step (.of_working working alone) ended .here)

private theorem replacing_ends : (replacing.driven 7).activity = .returned ∧ (replacing.driven 7).frames = [] :=
  ⟨Activity.returned_of_window? (by decide +kernel), List.length_eq_zero_iff.mp (by decide +kernel)⟩

private theorem replacing_obeys : replacing.Obeys [.str "ab", .str "b", .function ⟨1⟩] []
    (fun _ _ => .ok [.str "x"]) := by
  intro i n call w invokes
  rcases (opening.invokes invokes).of_callsBack shouted shout_concludes with ⟨rfl, rfl, rfl, rfl⟩ | ⟨j, rfl, later⟩
  · exact ⟨1, _, shout_concludes, fun _ _ => .of_sameObjects ⟨by cbv, by cbv⟩ _⟩
  · exact absurd replacing_ends.2 ((closing.invokes later).not_after replacing_ends.1)

/-- A substitution whose one callback is suspended once comes to what it comes to anyway. -/
theorem library_course_replacing : ∃ calls outcome, replacing.Course ⟨0⟩ [] calls outcome ∧
    calls = [⟨⟨1⟩, [.str "b"]⟩] ∧ outcome = .ok [.str "ax", .int 1] := by
  obtain ⟨calls, outcome, alike⟩ := library_course .gsub [.str "ab", .str "b", .function ⟨1⟩] ⟨0⟩ 4 shop
    fun _ _ => .ok [.str "x"]
  have shows : (⟨0⟩ : Window).Shows replacing.core.context.stack [.str "ab", .str "b", .function ⟨1⟩] :=
    ⟨by decide, rfl, by decide⟩
  obtain ⟨course, only⟩ := alike ⟨0⟩ replacing rfl rfl shows rfl (.of_sameObjects ⟨rfl, rfl⟩ _) replacing_obeys
  have ended : (replacing.driven 7).Course ⟨0⟩ [] [] (.ok [.str "ax", .int 1]) := by
    have results : (⟨0⟩ : Window).values (replacing.driven 7).core.context.stack = [.str "ax", .int 1] := by
      decide +kernel
    have returned : (replacing.driven 7).Consults ⟨0⟩ [] [] (.ok [.str "ax", .int 1]) (replacing.driven 7) :=
      results ▸ .returned replacing_ends.1 replacing_ends.2
    exact ⟨[], _, returned, rfl⟩
  obtain ⟨exchanges, last, consults, none⟩ := closing.course ended
  have direct : replacing.Course ⟨0⟩ [] [⟨⟨1⟩, [.str "b"]⟩] (.ok [.str "ax", .int 1]) := by
    apply opening.course
    exact ⟨⟨_, 1⟩ :: exchanges, last, .answered shouted shout_concludes consults, by rw [List.map_cons, none]⟩
  obtain ⟨rfl, rfl⟩ := only _ _ direct
  exact ⟨_, _, course, rfl, rfl⟩

end Machine

end CoopScript
