import CoopScript.Evaluation.Functions
import CoopScript.Proofs.WorldChanges

/-! How a machine that keeps callers as frames follows an evaluation in which functions call each
other. While the evaluation is inside a call, the frames of all the callers wait on the machine. If
the evaluation comes back with results, the machine returns to those frames; if it comes back with
something else, the run ends as it would if every caller attached its frame on the way out. -/

namespace CoopScript

namespace Evaluation

theorem bind_apply {ε α β : Type} (op : EvalM ε α) (next : α → EvalM ε β) (c : Core) :
    (op >>= next) c =
      match op c with
      | none => none
      | some (.ok a, c) => next a c
      | some (.error e, c) => some (.error e, c) := by
  change (ExceptT.bind op next) c = _
  simp only [ExceptT.bind, ExceptT.mk, Bind.bind, StateT.bind]
  rcases op c with _ | ⟨_ | _, _⟩ <;> rfl

theorem pure_apply {ε α : Type} (a : α) (c : Core) : (pure a : EvalM ε α) c = some (.ok a, c) := rfl

theorem own_bind {ε α β : Type} [OfFailure ε] (op : CoreM α) (next : α → EvalM ε β) (c : Core) :
    (own op >>= next) c =
      match op c with
      | (.ok a, c) => next a c
      | (.error e, c) => some (.error (OfFailure.failed e), c) := by
  rw [bind_apply, own]
  rcases op c with ⟨_ | _, _⟩ <;> rfl

theorem handed_apply (x : EvalM Unwind Unit) (c : Core) :
    handed x c = (x c).map fun (result, c) => (result.mapError Unwind.raise, c) := rfl

theorem handed_own {α : Type} {op : CoreM α} {a : α} {c d : Core} (done : op c = (.ok a, d))
    (next : α → EvalM Unwind Unit) : handed (own op >>= next) c = handed (next a) d := by
  rw [handed_apply, own_bind, done]
  rfl

end Evaluation

section Logging

/-! A log says nothing about what there is in the world. -/

theorem Core.logged_logged (c : Core) (lines more : List String) :
    (c.logged lines).logged more = c.logged (lines ++ more) := by
  simp only [logged, List.append_assoc]

@[simp] theorem Frame.watcher?_logged (frame : Frame) (c : Core) (lines : List String) :
    frame.watcher? (c.logged lines).world = frame.watcher? c.world := rfl

end Logging

namespace Evaluation

/-- What a call that did not come back with results is outside all the callers. -/
def unwound (callers : List Frame) (left : Raise × Core) : Raise × Core :=
  callers.foldl (fun (raise, c) frame => ((attach frame raise c).1.raise, (attach frame raise c).2)) left

theorem unwound_cons (frame : Frame) (callers : List Frame) (raise : Raise) (c : Core) :
    unwound (frame :: callers) (raise, c) = unwound callers ((attach frame raise c).1.raise, (attach frame raise c).2) :=
  rfl

/-- An error passes through the callers, whose watchers log it one after another. -/
theorem unwound_error (callers : List Frame) (e : Failure) (c : Core) :
    unwound callers (.error e, c) =
      (.error e, c.logged (callers.filterMap fun frame => (frame.watcher? c.world).map fun watcher =>
        watcher.failed e.message)) := by
  induction callers generalizing c with
  | nil => simp [unwound, Core.logged]
  | cons frame callers ih =>
    have attached : attach frame (.error e) c =
        (.error e, c.logged ((frame.watcher? c.world).toList.map fun watcher => watcher.failed e.message)) := rfl
    simp only [unwound_cons, attached, Unwind.raise, ih, Core.logged_logged, Frame.watcher?_logged, List.filterMap_cons]
    cases frame.watcher? c.world <;> rfl

/-- What a watcher logs of a suspension with these frames. -/
def suspendedLine (reason : SuspendReason) (c : Core) (frames : List Frame) (watcher : Watcher) : String :=
  watcher.suspended { reason, draining := c.context.draining, frames := frames.map fun f => f.describe c.world }

@[simp] theorem suspendedLine_logged (reason : SuspendReason) (c : Core) (lines : List String) :
    suspendedLine reason (c.logged lines) = suspendedLine reason c := rfl

/-- A suspension takes the frames of the callers along, and each watcher sees those that are there
when its own has been attached. -/
theorem unwound_suspend (callers : List Frame) (reason : SuspendReason) (captured : List Frame) (c : Core) :
    unwound callers (.suspend ⟨reason, captured⟩, c) =
      (.suspend ⟨reason, captured ++ callers⟩,
        c.logged (callers.zipIdx.filterMap fun (caller, i) => (caller.watcher? c.world).map
          (suspendedLine reason c ((captured ++ callers).take (captured.length + i + 1))))) := by
  induction callers generalizing captured c with
  | nil => simp [unwound, Core.logged]
  | cons frame callers ih =>
    have attached : attach frame (.suspend ⟨reason, captured⟩) c =
        (.suspend ⟨reason, captured ++ [frame]⟩,
          c.logged ((frame.watcher? c.world).toList.map (suspendedLine reason c (captured ++ [frame])))) := rfl
    have deeper (i : Nat) : (captured ++ [frame]).length + i + 1 = captured.length + (i + 1) + 1 := by
      rw [List.length_append, List.length_singleton]
      omega
    have own : (captured ++ frame :: callers).take (captured.length + 0 + 1) = captured ++ [frame] := by
      simp [List.take_append]
    simp only [unwound_cons, attached, Unwind.raise, Resolved.unresolve, ih, Core.logged_logged, Frame.watcher?_logged,
      suspendedLine_logged, deeper, List.append_assoc, List.singleton_append, List.zipIdx_cons', List.filterMap_cons,
      List.filterMap_map, own]
    cases frame.watcher? c.world <;> rfl

end Evaluation

def Raise.halt : Raise → Halt
  | suspend signal => .paused signal.reason
  | error e => .failed e

namespace Machine

open Evaluation

/-- The machine moves on to the other one, without coming to rest. -/
def Leads : Machine → Machine → Prop := Relation.ReflTransGen fun m next => m.step = .inl next

namespace Leads

variable {m next last : Machine}

theorem step (moved : m.step = .inl next) : m.Leads next := .single moved

theorem precedes (leads : m.Leads last) : m.core.world.Precedes last.core.world := by
  induction leads with
  | refl => exact .of_same rfl rfl rfl
  | tail _ moved ih =>
    exact ih.trans (step_preserves (R := fun c d => c.world.Precedes d.world) (fun _ => .of_same rfl rfl rfl)
      Activity.step_precedes moved)

/-- A machine does not come to rest sooner than one it leads to. -/
theorem run_eq_none (leads : m.Leads last) {n : Nat} (running : last.run n = none) : m.run n = none := by
  induction leads using Relation.ReflTransGen.head_induction_on with
  | refl => exact running
  | head moved _ ih =>
    cases n with
    | zero => rfl
    | succ n =>
      rw [run_inl moved]
      by_contra rested
      obtain ⟨result, ran⟩ := Option.ne_none_iff_exists'.mp rested
      rw [run_mono ran n.le_succ] at ih
      cases ih

theorem run_eq_some (leads : m.Leads last) {n : Nat} {result : Halt × Machine} (ran : last.run n = some result) :
    ∃ more, m.run more = some result := by
  induction leads using Relation.ReflTransGen.head_induction_on with
  | refl => exact ⟨n, ran⟩
  | head moved _ ih =>
    obtain ⟨more, ran⟩ := ih
    exact ⟨more + 1, by rw [run_inl moved, ran]⟩

end Leads

/-- A run has ended as told, with the frames of a suspension in front of those that were pending. -/
structure Ended (pending : List Frame) (left : Raise × Core) (result : Halt × Machine) : Prop where
  halt : result.1 = left.1.halt
  core : result.2.core = left.2
  saved : ∀ signal, left.1 = .suspend signal → result.2.pending = signal.frames ++ pending

/-- What the run of a machine has to do with an evaluation that starts where it does: as long as
there is no outcome, it does not come to rest in so many steps; results take it to a return, with
the callers that it had; and anything else ends it, having passed through the callers. -/
def Realizes (n : Nat) (m : Machine) : Option (Except Raise Unit × Core) → Prop
  | none => m.run n = none
  | some (.ok (), c) => m.Leads { m with core := c, activity := .returned }
  | some (.error raise, c) => ∃ fuel result, m.run fuel = some result ∧ Ended m.pending (unwound m.callers (raise, c)) result

namespace Realizes

variable {m next : Machine} {n : Nat} {outcome : Option (Except Raise Unit × Core)}

theorem mono {k : Nat} (realizes : m.Realizes n outcome) (fewer : k ≤ n) : m.Realizes k outcome := by
  rcases outcome with _ | ⟨_ | _, _⟩
  · by_contra rested
    obtain ⟨result, ran⟩ := Option.ne_none_iff_exists'.mp rested
    have still : m.run n = none := realizes
    rw [run_mono ran fewer] at still
    cases still
  · exact realizes
  · exact realizes

/-- What holds of a machine later on holds of it before, if the same frames wait. -/
theorem of_leads (realizes : next.Realizes n outcome) (leads : m.Leads next) (callers : next.callers = m.callers)
    (pending : next.pending = m.pending) : m.Realizes n outcome := by
  rcases outcome with _ | ⟨raise | _, c⟩
  · exact leads.run_eq_none realizes
  · obtain ⟨fuel, result, ran, ended⟩ := realizes
    obtain ⟨more, ran⟩ := leads.run_eq_some ran
    exact ⟨more, result, ran, by rwa [callers, pending] at ended⟩
  · have same : ({ next with core := c, activity := .returned } : Machine) = { m with core := c, activity := .returned } := by
      simp only [callers, pending]
    exact leads.trans (same ▸ realizes)

/-- With a step of its own it takes more steps to come to rest. -/
theorem of_step {first : Machine} (realizes : next.Realizes n outcome) (moved : m.step = .inl first)
    (leads : first.Leads next) (callers : next.callers = m.callers) (pending : next.pending = m.pending) :
    m.Realizes (n + 1) outcome := by
  have later := realizes.of_leads (leads.head moved) callers pending
  rcases outcome with _ | ⟨_ | _, _⟩
  · exact (run_inl moved n).trans (leads.run_eq_none realizes)
  · exact later
  · exact later

/-! One rule for each kind of outcome that a step can have. -/

variable {c : Core}

theorem failed {e : Failure} (working : m.activity ≠ .returned) (stepped : m.activity.step m.core = (.error e, c)) :
    m.Realizes n (some (.error (.error e), c)) := by
  have halted : m.step = .inr (({ m with core := c } : Machine).fail e) := by
    rw [step_working rfl working, stepped]
    rfl
  refine ⟨1, _, run_inr halted 0, ?_⟩
  rw [unwound_error]
  exact ⟨rfl, rfl, fun _ impossible => by cases impossible⟩

theorem suspends {reason : SuspendReason} {frame : Frame} (working : m.activity ≠ .returned)
    (stepped : m.activity.step m.core = (.ok (.suspend reason frame), c)) :
    m.Realizes n (handed (Evaluation.suspend reason frame) c) := by
  have halted : m.step = .inr (({ m with core := c } : Machine).suspend reason frame) := by
    rw [step_working rfl working, stepped]
    rfl
  simp only [handed_apply, Evaluation.suspend, raised, Option.map_some]
  by_cases draining : c.context.draining = true
  · rw [if_pos draining]
    simp only [Machine.suspend, draining, if_true] at halted
    refine ⟨1, _, run_inr halted 0, ?_⟩
    change Ended m.pending (unwound m.callers (.suspend ⟨reason, [frame]⟩, c)) _
    rw [unwound_suspend]
    have seen (i : Nat) : [frame].length + i + 1 = i + 2 := by
      rw [List.length_singleton, Nat.add_comm 1 i]
    simp only [seen]
    refine ⟨rfl, rfl, ?_⟩
    rintro _ ⟨⟩
    rfl
  · rw [if_neg draining]
    simp only [Machine.suspend, draining] at halted
    refine ⟨1, _, run_inr halted 0, ?_⟩
    change Ended m.pending (unwound m.callers (.error (.protocol .noPendingCall), c)) _
    rw [unwound_error]
    exact ⟨rfl, rfl, fun _ impossible => by cases impossible⟩

theorem done (working : m.activity ≠ .returned) (stepped : m.activity.step m.core = (.ok (.go .returned), c)) :
    m.Realizes n (some (.ok (), c)) := by
  refine Leads.step ?_
  rw [step_working rfl working, stepped]
  rfl

theorem goes {a : Activity} (working : m.activity ≠ .returned) (stepped : m.activity.step m.core = (.ok (.go a), c))
    (rest : ({ m with core := c, activity := a } : Machine).Realizes n outcome) : m.Realizes (n + 1) outcome := by
  refine rest.of_step ?_ .refl rfl rfl
  rw [step_working rfl working, stepped]
  rfl

/-- A call is made, and what stands after it is what the frame of the caller goes on with. -/
theorem calls {frame : Frame} {r : Request} {w : Window} {call : EvalM Raise Unit} {next : EvalM Unwind Unit}
    (working : m.activity ≠ .returned) (stepped : m.activity.step m.core = (.ok (.call frame r w), c))
    (inside : ({ m with core := c, activity := .dispatch r w, callers := frame :: m.callers } : Machine).Realizes n (call c))
    (after : ∀ d : Core, c.world.Precedes d.world →
      ({ m with core := d, activity := frame.activity } : Machine).Realizes n (handed next d)) :
    m.Realizes (n + 1) (handed (awaiting frame call >>= fun _ => next) c) := by
  let called : Machine := { m with core := c, activity := .dispatch r w, callers := frame :: m.callers }
  have moved : m.step = .inl called := by
    rw [step_working rfl working, stepped]
    rfl
  rw [handed_apply, bind_apply, awaiting]
  change called.Realizes n (call c) at inside
  generalize call c = outcome at inside
  rcases outcome with _ | ⟨raise | ⟨⟩, d⟩
  · exact (run_inl moved n).trans inside
  · -- The frame is the first that what comes back has to pass.
    obtain ⟨fuel, result, ran, ended⟩ := inside
    exact ⟨fuel + 1, result, (run_inl moved fuel).trans ran, ended⟩
  · have back : called.Leads { called with core := d, activity := .returned } := inside
    have resumed : ({ called with core := d, activity := .returned } : Machine).step =
        .inl { m with core := d, activity := frame.activity } := rfl
    have reached : called.Leads { m with core := d, activity := frame.activity } := back.tail resumed
    exact (after d back.precedes).of_step moved reached rfl rfl

/-! What a step does before it gets to its outcome is done in the evaluation, too. -/

section Own

variable {α : Type} {op : CoreM α} {move : α → CoreM Move}

theorem own {next : α → EvalM Unwind Unit} (working : m.activity ≠ .returned)
    (stepped : m.activity.step m.core = (op >>= move) c)
    (rest : ∀ a d, op c = (.ok a, d) → m.activity.step m.core = move a d → m.Realizes n (handed (next a) d)) :
    m.Realizes n (handed (Evaluation.own op >>= next) c) := by
  rw [Core.bind_apply] at stepped
  rw [handed_apply, own_bind]
  rcases done : op c with ⟨e | a, d⟩ <;> rw [done] at stepped
  · exact failed working stepped
  · exact rest a d done stepped

theorem served {next : α → EvalM Raise Unit} (working : m.activity ≠ .returned)
    (stepped : m.activity.step m.core = (op >>= move) c)
    (rest : ∀ a d, op c = (.ok a, d) → m.activity.step m.core = move a d → m.Realizes n (next a d)) :
    m.Realizes n ((Evaluation.own op >>= next) c) := by
  rw [Core.bind_apply] at stepped
  rw [own_bind]
  rcases done : op c with ⟨e | a, d⟩ <;> rw [done] at stepped
  · exact failed working stepped
  · exact rest a d done stepped

end Own

/-- An operation that is the whole step. -/
theorem own_move {op : CoreM Move} {next : Move → EvalM Unwind Unit} (working : m.activity ≠ .returned)
    (stepped : m.activity.step m.core = op c)
    (rest : ∀ move d, m.activity.step m.core = (.ok move, d) → m.Realizes n (handed (next move) d)) :
    m.Realizes n (handed (Evaluation.own op >>= next) c) := by
  rw [← bind_pure op] at stepped
  exact own working stepped fun move d _ moved => rest move d moved

theorem own_last {op : CoreM Unit} (working : m.activity ≠ .returned)
    (stepped : m.activity.step m.core = (op >>= fun _ => pure (.go .returned)) c) :
    m.Realizes n (handed (Evaluation.own op) c) := by
  rw [← bind_pure (Evaluation.own op)]
  exact own working stepped fun _ _ _ returned => done working returned

theorem served_last {op : CoreM Unit} (working : m.activity ≠ .returned)
    (stepped : m.activity.step m.core = (op >>= fun _ => pure (.go .returned)) c) :
    m.Realizes n ((Evaluation.own op : EvalM Raise Unit) c) := by
  rw [← bind_pure (Evaluation.own op : EvalM Raise Unit)]
  exact served working stepped fun _ _ _ returned => done working returned

end Realizes

end Machine

namespace Evaluation

open CoopScript.Core Machine

/-- Calls are made as the machine makes them, as far as so many of its steps tell. -/
def Serves (n : Nat) (call : FunctionId → Window → EvalM Unwind Unit) : Prop :=
  ∀ (m : Machine) (f : FunctionId) (w : Window), m.activity = .enter f w → m.Realizes n (function call f w m.core)

section Dispatch

variable {n : Nat} {call : FunctionId → Window → EvalM Unwind Unit} {m : Machine} {w : Window}

theorem Serves.mono {k : Nat} (serves : Serves n call) (fewer : k ≤ n) : Serves k call :=
  fun m f w entering => (serves m f w entering).mono fewer

theorem Serves.enters (serves : Serves n call) {f : FunctionId} {c : Core} (working : m.activity ≠ .returned)
    (stepped : m.activity.step m.core = (.ok (.go (.enter f w)), c)) : m.Realizes n (function call f w c) :=
  (Realizes.goes working stepped (serves _ f w rfl)).mono n.le_succ

/-- A request is served by an operation on the window that ends in an activity. -/
theorem step_serves {r : Request} {c : Core} {op : CoreM Unit} {a : Activity} (active : m.activity = .dispatch r w)
    (serves : r.serve w c = (op >>= fun _ => pure a) c) :
    m.activity.step c = (op >>= fun _ => pure (Move.go a)) c := by
  rw [active]
  change (r.serve w >>= fun a => pure (Move.go a)) c = _
  rw [Core.bind_apply, serves, ← Core.bind_apply, bind_assoc]
  rfl

theorem step_refuses {r : Request} {c d : Core} {e : Failure} (active : m.activity = .dispatch r w)
    (refused : r.serve w c = (.error e, d)) : m.activity.step c = (.error e, d) := by
  rw [active]
  change (r.serve w >>= fun a => pure (Move.go a)) c = _
  rw [Core.bind_apply, refused]

theorem callThrough_realizes (serves : Serves n call) {r : Request} {callee : Value} {handler : Option Value}
    (active : m.activity = .dispatch r w) (served : r.serve w m.core = Request.callThrough w callee handler m.core) :
    m.Realizes n (callThrough call callee w handler m.core) := by
  have working : m.activity ≠ .returned := by simp [active]
  cases handler with
  | none => exact .failed working (step_refuses active served)
  | some handler =>
    cases handler with
    | function handler =>
      exact .served working (step_serves active served) fun _ _ _ entering => serves.enters working entering
    | _ => exact .failed working (step_refuses active served)

theorem value_realizes (serves : Serves n call) {callee : Value} (active : m.activity = .dispatch (.value callee) w) :
    m.Realizes n (value call callee w m.core) := by
  have through (other : ∀ f, callee ≠ .function f) :
      m.Realizes n (callThrough call callee w (m.core.world.metamethod? callee "__call") m.core) :=
    callThrough_realizes serves active (Request.serve_value other w m.core)
  cases callee with
  | function f => exact serves.enters (by simp [active]) (by rw [active]; rfl)
  | _ => exact through (by simp)

theorem index_realizes (serves : Serves n call) {object key : Value} (active : m.activity = .dispatch (.index object key) w) :
    m.Realizes n (index call object key w m.core) := by
  have working : m.activity ≠ .returned := by simp [active]
  have looked : (Request.index object key).serve w m.core = _ := Core.bind_apply getWorld _ m.core
  simp only [index, own_bind, getWorld_apply] at looked ⊢
  cases found : m.core.world.lookup key indexChainLimit object with
  | error e =>
    rw [found] at looked
    exact .failed working (step_refuses active looked)
  | ok result =>
    rw [found] at looked
    cases result with
    | found v => exact .served_last working (step_serves active looked)
    | handler f object =>
      exact .served working (step_serves active looked) fun _ _ _ entering => serves.enters working entering

theorem text_realizes (serves : Serves n call) {v : Value} (active : m.activity = .dispatch (.text v) w) :
    m.Realizes n (text call v w m.core) := by
  have working : m.activity ≠ .returned := by simp [active]
  have asked : (Request.text v).serve w m.core = _ := Core.bind_apply getWorld _ m.core
  simp only [text, own_bind, getWorld_apply] at asked ⊢
  cases found : m.core.world.metamethod? v "__tostring" with
  | none =>
    rw [found] at asked
    exact .served_last working (step_serves active asked)
  | some handler =>
    rw [found] at asked
    refine .served working (step_serves active asked) fun _ _ _ dispatched => ?_
    exact (Realizes.goes working dispatched (value_realizes serves rfl)).mono n.le_succ

theorem request_realizes (serves : Serves n call) {r : Request} (active : m.activity = .dispatch r w) :
    m.Realizes n (request call r w m.core) := by
  cases r with
  | function f => exact serves.enters (by simp [active]) (by rw [active]; rfl)
  | value callee => exact value_realizes serves active
  | index object key => exact index_realizes serves active
  | text v => exact text_realizes serves active

end Dispatch

end Evaluation

end CoopScript
