import CoopScript.Proofs.StreamSteps

/-! Tasks that write to one stream. Each task has an executor of its own, and they take turns on
one world. What has been written to the stream is at every moment an interleaving of what the
calls have been taken of their data. -/

namespace CoopScript

/-- The whole consists of the parts, each in its own order: it grows with one part at a time. -/
inductive Interleaving {ι α : Type} [DecidableEq ι] : (ι → List α) → List α → Prop where
  | nothing : Interleaving (fun _ => []) []
  | added {parts : ι → List α} {whole : List α} (before : Interleaving parts whole) (i : ι) (more : List α) :
      Interleaving (Function.update parts i (parts i ++ more)) (whole ++ more)

/-- A call that writes: its data, how much of it is taken, and whether the call has returned. -/
structure WriteCall where
  data : Bytes
  taken : Nat
  returned : Bool

deriving instance DecidableEq for WriteCall

namespace WriteCall

def sent (call : WriteCall) : Bytes := call.data.take call.taken

/-- What the call of a number has been taken of its data. -/
def part (calls : List WriteCall) (n : Nat) : Bytes := (calls[n]?.map sent).getD []

/-- No more is taken than there is, and all of it when the call has returned. -/
def Sound (call : WriteCall) : Prop :=
  call.taken ≤ call.data.length ∧ (call.returned = true → call.taken = call.data.length)

theorem part_concat (earlier : List WriteCall) (call : WriteCall) :
    part (earlier ++ [call]) = Function.update (part earlier) earlier.length call.sent := by
  funext n
  by_cases last : n = earlier.length
  · subst last
    simp [part]
  · have same : (earlier ++ [call])[n]? = earlier[n]? := by
      rw [List.getElem?_append]
      split
      · rfl
      · rw [List.getElem?_eq_none (by simp; omega), List.getElem?_eq_none (by omega)]
    rw [Function.update_of_ne last, part, part, same]

end WriteCall

/-- How much of the data is taken when the next attempt is over. -/
def Writing.takes (r : Writing) (w : World) : Nat :=
  match w.file? r.file with
  | some h => (Transfer.write r.data { handle := h, disk := w.disk, taken := r.taken }).2.taken
  | none => r.taken

namespace Machine

/-- The calls that write to the handle, brought up to the next step: a call that begins follows the
others, and one that goes on was the last of them. -/
def recorded (u : UserdataId) (m : Machine) (calls : List WriteCall) : List WriteCall :=
  match m.activity.writing? m.core with
  | none => calls
  | some r =>
    if r.file = u then
      let earlier := match m.activity with | .resume _ _ _ => calls.dropLast | _ => calls
      earlier ++ [⟨r.data, r.takes m.core.world, m.step.isLeft⟩]
    else calls

end Machine

/-- Tasks with a world in common, the calls by which they write to a handle, and the run of the one
whose turn it is. -/
structure Tasks (ι : Type) where
  world : World
  executors : ι → Executor
  calls : ι → List WriteCall := fun _ => []
  turn : Option (ι × Machine) := none

namespace Tasks

variable {ι : Type} [DecidableEq ι]

/-- What the calls have been taken of their data, by task and number. -/
def sent (s : Tasks ι) (call : ι × Nat) : Bytes := WriteCall.part (s.calls call.1) call.2

/-- The next step of the task whose turn it is; the turn ends when its run comes to rest. -/
def advanced (u : UserdataId) (s : Tasks ι) : Tasks ι :=
  match s.turn with
  | none => s
  | some (i, m) =>
    let calls := Function.update s.calls i (m.recorded u (s.calls i))
    match m.step with
    | .inl next => { s with world := next.core.world, calls, turn := some (i, next) }
    | .inr (h, last) =>
      { world := last.core.world
        executors := Function.update s.executors i ((s.executors i).settled h last).2
        calls }

/-- What tasks can come to. Between turns calls are set up, executors are given up or used again,
and the world may change, but neither the handle nor a function that waits to be resumed. -/
inductive Reachable (u : UserdataId) (w : World) : Tasks ι → Prop where
  | start {executors : ι → Executor} (idle : ∀ i, (executors i).callStack = []) : Reachable u w { world := w, executors }
  | called {s : Tasks ι} (before : Reachable u w s) (resting : s.turn = none) {i : ι} {f : FunctionId} {args : List Value}
      {e : Executor} (pushed : (s.executors i).pushCall f args = (.ok (), e)) :
      Reachable u w { s with executors := Function.update s.executors i e }
  | renewed {s : Tasks ι} (before : Reachable u w s) (resting : s.turn = none) {i : ι} {e : Executor}
      (empty : e.callStack = []) : Reachable u w { s with executors := Function.update s.executors i e }
  | begun {s : Tasks ι} (before : Reachable u w s) (resting : s.turn = none) {i : ι}
      (paused : (s.executors i).isPaused = true) :
      Reachable u w { s with turn := some (i, (s.executors i).machine s.world) }
  | advanced {s : Tasks ι} (before : Reachable u w s) : Reachable u w (s.advanced u)
  | meanwhile {s : Tasks ι} (before : Reachable u w s) (resting : s.turn = none) {v : World}
      (file : v.file? u = s.world.file? u) (functions : ∀ i, ∀ frame ∈ (s.executors i).callStack,
        v.callable frame.function = s.world.callable frame.function) : Reachable u w { s with world := v }

end Tasks

/-- The step flushes the handle or closes it. -/
inductive Activity.Finishes (u : UserdataId) (c : Core) : Activity → Prop where
  | flush {f : FunctionId} {w : Window} (found : c.world.callable f = .builtin .fileFlush)
      (asked : c.world.asked? .fileFlush (w.values c.context.stack) = some (u, .flush)) : Finishes u c (.enter f w)
  | close {f : FunctionId} {w : Window} (found : c.world.callable f = .builtin .fileClose)
      (asked : c.world.asked? .fileClose (w.values c.context.stack) = some (u, .close))
      (own : (c.world.file? u).any (·.standard) = false) : Finishes u c (.enter f w)
  | resumed {f : FunctionId} {w : Window}
      (found : c.world.callable f = .builtin .fileFlush ∨ c.world.callable f = .builtin .fileClose) :
      Finishes u c (.resume f w (.file u))

theorem Activity.Finishes.step {u : UserdataId} {a : Activity} {c : Core} (finishes : a.Finishes u c) :
    ∃ f w closing, a.step c = c.performed f w (Files.finishOn closing u c.world) := by
  cases finishes with
  | @flush f w found asked =>
    refine ⟨f, w, false, ?_⟩
    change (c.world.callable f).invoke f w c = _
    rw [found, Callable.invoke_builtin, World.invoke_of_asked asked]
    rfl
  | @close f w found asked own =>
    refine ⟨f, w, true, ?_⟩
    change (c.world.callable f).invoke f w c = _
    rw [found, Callable.invoke_builtin, World.invoke_of_asked asked, FileOperation.perform, World.read_apply, own]
    rfl
  | @resumed f w found =>
    have stepped : (Activity.resume f w (.file u)).step c = (c.world.callable f).resume f w (.file u) c := rfl
    rcases found with found | found <;> rw [found, Callable.resume_builtin] at stepped
    · exact ⟨f, w, false, stepped⟩
    · exact ⟨f, w, true, stepped⟩

namespace Machine

variable {u : UserdataId} {m next : Machine}

def outcome : Machine ⊕ (Halt × Machine) → World := Sum.elim (·.core.world) (·.2.core.world)

/-- Besides what the activity does, a step at most logs something. -/
theorem step_outcome (m : Machine) : ∃ log, outcome m.step = { (m.activity.step m.core).2.world with log } := by
  cases moved : m.step with
  | inl next =>
    refine ⟨next.core.world.log, ?_⟩
    cases Step.of_step moved with
    | returned returned =>
      rw [returned]
      rfl
    | went _ stepped | called _ stepped =>
      rw [stepped]
      rfl
  | inr result =>
    refine ⟨result.2.core.world.log, ?_⟩
    cases Halted.of_step moved with
    | finished returned | refused returned =>
      rw [returned]
      rfl
    | failed _ stepped | stranded _ stepped | paused _ stepped =>
      rw [stepped]
      rfl

theorem step_sameWriters (m : Machine) : m.core.world.SameWriters (outcome m.step) := by
  obtain ⟨log, same⟩ := m.step_outcome
  rw [same]
  exact m.activity.step_sameWriters m.core

theorem answered_of_inl {f : FunctionId} {w : Window} {answer : Except Failure Action × World}
    (working : m.activity ≠ .returned) (stepped : m.activity.step m.core = m.core.performed f w answer)
    (moved : m.step = .inl next) :
    answer.2 = next.core.world ∧ ∃ a, answer.1 = .ok a ∧ ∀ reason s, a ≠ .suspend reason s := by
  rw [step_working rfl working, stepped] at moved
  have world := m.core.performed_world f w answer
  obtain ⟨_ | a, v⟩ := answer
  · cases moved
  · refine ⟨?_, a, rfl, ?_⟩
    · rw [← world]
      generalize m.core.performed f w (.ok a, v) = result at moved
      obtain ⟨_ | (_ | _ | _), _⟩ := result <;> cases moved <;> rfl
    · rintro reason s rfl
      cases moved

end Machine

namespace World

variable {u : UserdataId} {w v : World} {frames : List Frame} {calls : List WriteCall}

/-- No frame goes on writing to the handle. -/
def Quiet (u : UserdataId) (w : World) (frames : List Frame) : Prop :=
  ∀ frame ∈ frames, ∀ r, frame.writing? w = some r → r.file ≠ u

/-- No frame but the first goes on writing to the handle, and if it does, its call is the last one. -/
structure Resumes (u : UserdataId) (w : World) (frames : List Frame) (calls : List WriteCall) : Prop where
  first : ∀ frame ∈ frames.head?, ∀ r, frame.writing? w = some r → r.file = u →
    calls.getLast? = some ⟨r.data, r.taken, false⟩
  others : w.Quiet u frames.tail

theorem Quiet.of_same (quiet : w.Quiet u frames) (same : ∀ frame ∈ frames, frame.writing? v = frame.writing? w) :
    v.Quiet u frames := by
  intro frame member r writing
  rw [same frame member] at writing
  exact quiet frame member r writing

theorem Resumes.of_same (resumes : w.Resumes u frames calls)
    (same : ∀ frame ∈ frames, frame.writing? v = frame.writing? w) : v.Resumes u frames calls := by
  refine ⟨?_, resumes.others.of_same fun frame member => same frame (List.mem_of_mem_tail member)⟩
  intro frame head r writing
  rw [same frame (List.mem_of_mem_head? head)] at writing
  exact resumes.first frame head r writing

theorem Quiet.of_sameWriters (quiet : w.Quiet u frames) (same : w.SameWriters v) : v.Quiet u frames :=
  quiet.of_same fun frame _ => Frame.writing?_of_sameWriters same frame

theorem Quiet.resumes (quiet : w.Quiet u frames) : w.Resumes u frames calls := by
  refine ⟨?_, fun frame member => quiet frame (List.mem_of_mem_tail member)⟩
  intro frame head r writing file
  exact absurd file (quiet frame (List.mem_of_mem_head? head) r writing)

end World

namespace Activity

variable {u : UserdataId} {c : Core}

theorem step_not_resume {a : Activity} {f : FunctionId} {w : Window} {s : Saved} :
    (a.step c).1 ≠ .ok (.go (.resume f w s)) := by
  intro stepped
  -- a saved state is taken up by a return only, which is not a step of an activity
  cases own : a.activation? with
  | some call => cases step_leads own stepped
  | none =>
    cases a with
    | returned => cases stepped
    | dispatch r v =>
      simp only [step, Core.bind_apply] at stepped
      split at stepped
      · next served =>
        cases stepped
        cases Request.serve_served (congrArg Prod.fst served)
      · cases stepped
    | enter _ _ | resume _ _ _ | running _ _ _ => cases own

end Activity

namespace Machine

variable {u : UserdataId} {m next : Machine} {calls : List WriteCall}

/-- Of the call at work and the frames that wait, only the first can go on writing to the handle,
and its call is the last one then. -/
def Follows (u : UserdataId) (m : Machine) (calls : List WriteCall) : Prop :=
  match m.activity with
  | .returned => m.core.world.Resumes u m.frames calls
  | .resume f w s => m.core.world.Resumes u (⟨f, w, some s⟩ :: m.frames) calls
  | .dispatch _ _ | .enter _ _ | .running _ _ _ => m.core.world.Quiet u m.frames

theorem Follows.quiet (follows : m.Follows u calls) (working : m.activity ≠ .returned) :
    m.core.world.Quiet u m.frames := by
  unfold Follows at follows
  split at follows
  · next returned => exact absurd returned working
  · exact follows.others
  · exact follows
  · exact follows
  · exact follows

theorem Follows.of_quiet (quiet : m.core.world.Quiet u m.frames) (fresh : ∀ f w s, m.activity ≠ .resume f w s) :
    m.Follows u calls := by
  unfold Follows
  split
  · exact quiet.resumes
  · next f w s active => exact absurd active (fresh f w s)
  · exact quiet
  · exact quiet
  · exact quiet

theorem Follows.step (follows : m.Follows u calls) (moved : m.step = .inl next) :
    next.Follows u (m.recorded u calls) := by
  have writers := m.activity.step_sameWriters m.core
  cases Step.of_step moved with
  | @returned frame callers pending returned waiting =>
    -- the first frame takes its place at the head of the list again
    have same : m.recorded u calls = calls := by simp only [recorded, returned, Activity.writing?]
    simp only [Follows, returned, waiting] at follows
    rw [same]
    cases state : frame.state with
    | none =>
      have active : frame.activity = .enter frame.function frame.base := by simp only [Frame.activity, state]
      simp only [Follows, active]
      exact follows.others
    | some s =>
      have active : frame.activity = .resume frame.function frame.base s := by simp only [Frame.activity, state]
      simp only [Follows, active, ← state]
      exact follows
  | went working stepped =>
    rw [stepped] at writers
    refine .of_quiet ((follows.quiet working).of_sameWriters writers) ?_
    rintro f w s rfl
    exact Activity.step_not_resume (congrArg Prod.fst stepped)
  | @called frame r w core working stepped =>
    rw [stepped] at writers
    refine .of_quiet ?_ (by simp)
    intro other member r writing
    rcases List.mem_cons.mp member with rfl | member
    · obtain ⟨impossible, _⟩ := Activity.step_frame stepped rfl writing
      cases impossible
    · exact (follows.quiet working).of_sameWriters writers other member r writing

theorem takes_of_suspend {r after : Writing} {w v : World} {reason : SuspendReason}
    (wrote : Files.writeOn r w = (.ok (.suspend reason (.writing after)), v)) :
    after = { r with taken := r.takes w } := by
  cases found : w.file? r.file with
  | none =>
    rw [Files.writeOn, World.bind_apply, Files.transferring, World.read_apply, found] at wrote
    cases wrote
  | some h =>
    rw [Files.writeOn_apply found] at wrote
    simp only [Writing.takes, found]
    generalize Transfer.write r.data { handle := h, disk := w.disk, taken := r.taken } = result at wrote ⊢
    obtain ⟨e | _, t⟩ := result
    · cases e <;> cases wrote
      rfl
    · cases wrote

theorem Follows.pause (follows : m.Follows u calls) {reason : SuspendReason} {last : Machine}
    (halted : m.step = .inr (.paused reason, last)) : last.core.world.Resumes u last.pending (m.recorded u calls) := by
  have writers := m.activity.step_sameWriters m.core
  cases Halted.of_step halted with
  | @paused _ frame core working stepped lines =>
    rw [stepped] at writers
    refine ⟨?_, ?_⟩
    · rintro _ ⟨⟩ r writing file
      change frame.writing? core.world = some r at writing
      obtain ⟨_, earlier, working, wrote⟩ := Activity.step_frame stepped rfl writing
      cases takes_of_suspend wrote
      have file : earlier.file = u := file
      simp only [recorded, working, file, if_true, List.getLast?_concat, halted]
      rfl
    · exact (follows.quiet working).of_sameWriters writers

end Machine

/-- What an attempt at writing to a stream comes to: more of the data is taken, and it follows what
was written before; all of it is taken unless the call is suspended or fails. -/
theorem Writing.attempt {r : Writing} {w : World} {h : Handle} (found : w.file? r.file = some h) (stream : h.IsStream)
    (most : r.taken ≤ r.data.length) :
    (∃ after added, (Files.writeOn r w).2.file? r.file = some after ∧ after.IsStream ∧
      r.data.take (r.takes w) = r.data.take r.taken ++ added ∧ after.written = h.written ++ added) ∧
    r.takes w ≤ r.data.length ∧
    ∀ a, (Files.writeOn r w).1 = .ok a → (∀ reason s, a ≠ .suspend reason s) → r.takes w = r.data.length := by
  have wrote := Transfer.write_wrote (t := { handle := h, disk := w.disk, taken := r.taken }) stream most
  have stored := World.stored_file? found
  rw [Files.writeOn_apply found]
  simp only [takes, found]
  generalize Transfer.write r.data { handle := h, disk := w.disk, taken := r.taken } = result at wrote
  cases wrote with
  | done written all =>
    obtain ⟨added, taken, same⟩ := written.more
    exact ⟨⟨_, added, stored _, written.stream, taken, same⟩, written.most, fun _ _ _ => all⟩
  | @stopped e after written =>
    obtain ⟨added, taken, same⟩ := written.more
    cases e with
    | wouldBlock =>
      refine ⟨⟨_, added, stored _, written.stream, taken, same⟩, written.most, ?_⟩
      intro a answered goes
      cases answered
      exact absurd rfl (goes _ _)
    | _ =>
      refine ⟨⟨_, added, stored _, written.stream, taken, same⟩, written.most, ?_⟩
      intro a answered
      cases answered

namespace Machine

variable {u : UserdataId} {m : Machine} {calls : List WriteCall} {h : Handle}

theorem Follows.recorded_write (follows : m.Follows u calls) (sound : ∀ call ∈ calls, call.Sound) {r : Writing}
    (writing : m.activity.writing? m.core = some r) (file : r.file = u) :
    ∃ earlier, m.recorded u calls = earlier ++ [⟨r.data, r.takes m.core.world, m.step.isLeft⟩] ∧ earlier ⊆ calls ∧
      r.taken ≤ r.data.length ∧ WriteCall.part calls = WriteCall.part (earlier ++ [⟨r.data, r.taken, false⟩]) := by
  have same : m.recorded u calls = (match m.activity with | .resume _ _ _ => calls.dropLast | _ => calls) ++
      [⟨r.data, r.takes m.core.world, m.step.isLeft⟩] := by
    simp only [recorded, writing, file, if_true]
  rw [same]
  unfold Follows at follows
  cases active : m.activity with
  | returned | dispatch _ _ | running _ _ _ =>
    rw [active] at writing
    cases writing
  | enter f w =>
    rw [active] at writing
    have none : r.taken = 0 := by
      simp only [Activity.writing?] at writing
      split at writing
      · split at writing <;> cases writing
        rfl
      · cases writing
    refine ⟨calls, rfl, List.Subset.refl _, none ▸ Nat.zero_le _, ?_⟩
    rw [WriteCall.part_concat, WriteCall.sent, none, List.take_zero]
    exact (Function.update_eq_self_iff.mpr (by simp [WriteCall.part])).symm
  | resume f w s =>
    rw [active] at writing follows
    have last := follows.first ⟨f, w, some s⟩ rfl r writing file
    refine ⟨calls.dropLast, rfl, List.dropLast_subset _, (sound _ (List.mem_of_getLast? last)).1, ?_⟩
    rw [List.dropLast_append_getLast? _ last]

/-- One step adds to at most one part, and adds the same to what was written. -/
theorem Follows.progress (follows : m.Follows u calls) (found : m.core.world.file? u = some h) (stream : h.IsStream)
    (sound : ∀ call ∈ calls, call.Sound) :
    (∃ after n added, (outcome m.step).file? u = some after ∧ after.IsStream ∧ after.written = h.written ++ added ∧
      WriteCall.part (m.recorded u calls) =
        Function.update (WriteCall.part calls) n (WriteCall.part calls n ++ added)) ∧
    ∀ call ∈ m.recorded u calls, call.Sound := by
  obtain ⟨log, world⟩ := m.step_outcome
  have file? : (outcome m.step).file? u = (m.activity.step m.core).2.world.file? u := by rw [world]; rfl
  by_cases writes : ∃ r, m.activity.writing? m.core = some r ∧ r.file = u
  · obtain ⟨r, writing, rfl⟩ := writes
    obtain ⟨earlier, same, fewer, most, parts⟩ := follows.recorded_write sound writing rfl
    obtain ⟨⟨after, added, stored, stream, taken, written⟩, bound, all⟩ := r.attempt found stream most
    obtain ⟨f, w, working, stepped⟩ := Activity.step_of_writing writing
    rw [same]
    refine ⟨⟨after, earlier.length, added, ?_, stream, written, ?_⟩, ?_⟩
    · rw [file?, stepped, Core.performed_world]
      exact stored
    · rw [parts, WriteCall.part_concat, WriteCall.part_concat]
      simp [WriteCall.sent, taken]
    · intro call member
      rcases List.mem_append.mp member with member | member
      · exact sound call (fewer member)
      · cases List.mem_singleton.mp member
        refine ⟨bound, ?_⟩
        intro went
        cases moved : m.step with
        | inr _ =>
          rw [moved] at went
          cases went
        | inl next =>
          obtain ⟨_, a, answered, goes⟩ := answered_of_inl working stepped moved
          exact all a answered goes
  · have same : m.recorded u calls = calls := by
      unfold recorded
      split
      · rfl
      · next r writing =>
        exact if_neg fun file => writes ⟨r, writing, file⟩
    obtain ⟨after, carried, stream, written⟩ :=
      Activity.step_carries (fun r writing file => writes ⟨r, writing, file⟩) h found stream
    rw [same]
    refine ⟨⟨after, 0, [], file?.trans carried, stream, by rw [written, List.append_nil], ?_⟩, sound⟩
    rw [List.append_nil, Function.update_eq_self]

theorem finished (found : m.core.world.file? u = some h) (stream : h.IsStream)
    (finishes : m.activity.Finishes u m.core) {next : Machine} (moved : m.step = .inl next) :
    ∃ after, next.core.world.file? u = some after ∧ after.pending = [] := by
  have working : m.activity ≠ .returned := by
    intro returned
    rw [returned] at finishes
    cases finishes
  obtain ⟨f, w, closing, stepped⟩ := finishes.step
  obtain ⟨world, a, answered, goes⟩ := answered_of_inl working stepped moved
  rw [Files.finishOn_apply found] at world answered
  have ended : Transfer.Finishes { handle := h, disk := m.core.world.disk }
      ((if closing then Transfer.close else Transfer.flush) { handle := h, disk := m.core.world.disk }) := by
    cases closing with
    | true => exact Transfer.close_finishes stream
    | false => exact Transfer.flush_finishes stream
  generalize (if closing then Transfer.close else Transfer.flush)
    ({ handle := h, disk := m.core.world.disk } : Transfer) = result at ended world answered
  cases ended with
  | done _ none =>
    rw [← world]
    exact ⟨_, World.stored_file? found _, none⟩
  | @stopped e =>
    cases e with
    | wouldBlock =>
      cases answered
      exact absurd rfl (goes _ _)
    | _ => cases answered

end Machine

namespace Tasks

variable {ι : Type} [DecidableEq ι] {u : UserdataId} {start : Handle} {s : Tasks ι}

/-- What every step of the tasks preserves. -/
structure Holds (u : UserdataId) (start : Handle) (s : Tasks ι) : Prop where
  written : ∃ h whole, s.world.file? u = some h ∧ h.IsStream ∧ h.written = start.written ++ whole ∧
    Interleaving s.sent whole
  sound : ∀ i, ∀ call ∈ s.calls i, call.Sound
  waiting : ∀ i, (∀ m, s.turn ≠ some (i, m)) → s.world.Resumes u (s.executors i).callStack (s.calls i)
  running : ∀ i m, s.turn = some (i, m) → m.core.world = s.world ∧ m.Follows u (s.calls i)

theorem advanced_inl {i : ι} {m next : Machine} (turn : s.turn = some (i, m)) (moved : m.step = .inl next) :
    s.advanced u =
      { s with
        world := next.core.world
        calls := Function.update s.calls i (m.recorded u (s.calls i))
        turn := some (i, next) } := by
  simp only [advanced, turn, moved]

theorem advanced_inr {i : ι} {m last : Machine} {h : Halt} (turn : s.turn = some (i, m))
    (halted : m.step = .inr (h, last)) : s.advanced u =
      { world := last.core.world
        executors := Function.update s.executors i ((s.executors i).settled h last).2
        calls := Function.update s.calls i (m.recorded u (s.calls i)) } := by
  simp only [advanced, turn, halted]

theorem sent_update (s : Tasks ι) (i : ι) (calls : List WriteCall) {n : Nat} {added : Bytes}
    (parts : WriteCall.part calls =
      Function.update (WriteCall.part (s.calls i)) n (WriteCall.part (s.calls i) n ++ added)) :
    sent { s with calls := Function.update s.calls i calls } =
      Function.update s.sent (i, n) (s.sent (i, n) ++ added) := by
  funext ⟨j, k⟩
  by_cases same : j = i
  · subst same
    have at_k := congrFun parts k
    by_cases this : k = n
    · subst this
      simpa [sent] using at_k
    · rw [Function.update_of_ne this] at at_k
      rw [Function.update_of_ne (by simp [this])]
      simpa [sent] using at_k
  · rw [Function.update_of_ne (by simp [same])]
    simp [sent, Function.update_of_ne same]

namespace Holds

theorem executor (holds : s.Holds u start) (resting : s.turn = none) {i : ι} {e : Executor}
    (resumes : s.world.Resumes u e.callStack (s.calls i)) :
    Holds u start { s with executors := Function.update s.executors i e } := by
  refine ⟨holds.written, holds.sound, ?_, fun j m turn => ?_⟩
  · intro j _
    by_cases same : j = i
    · subst same
      simpa using resumes
    · simp only [Function.update_of_ne same]
      exact holds.waiting j (by simp [resting])
  · cases resting.symm.trans turn

theorem sound_update (holds : s.Holds u start) {i : ι} {calls : List WriteCall} (sound : ∀ call ∈ calls, call.Sound)
    (j : ι) : ∀ call ∈ Function.update s.calls i calls j, call.Sound := by
  intro call member
  by_cases same : j = i
  · subst same
    exact sound call (by simpa using member)
  · rw [Function.update_of_ne same] at member
    exact holds.sound j call member

theorem advanced (holds : s.Holds u start) : (s.advanced u).Holds u start := by
  cases turn : s.turn with
  | none =>
    have same : s.advanced u = s := by simp only [Tasks.advanced, turn]
    rw [same]
    exact holds
  | some current =>
    obtain ⟨i, m⟩ := current
    obtain ⟨h, whole, found, stream, written, interleaved⟩ := holds.written
    obtain ⟨world, follows⟩ := holds.running i m turn
    obtain ⟨⟨after, n, added, stored, still, wrote, parts⟩, sound⟩ :=
      follows.progress (world ▸ found) stream (holds.sound i)
    have sent := s.sent_update i (m.recorded u (s.calls i)) parts
    have goes : Interleaving (Function.update s.sent (i, n) (s.sent (i, n) ++ added)) (whole ++ added) :=
      interleaved.added (i, n) added
    rw [← sent] at goes
    have wrote : after.written = start.written ++ (whole ++ added) := by rw [wrote, written, List.append_assoc]
    have writers : s.world.SameWriters (Machine.outcome m.step) := world ▸ m.step_sameWriters
    -- the tasks whose turn it is not keep their frames, and the same functions write
    have others (j : ι) (other : j ≠ i) :
        (Machine.outcome m.step).Resumes u (s.executors j).callStack (s.calls j) := by
      refine (holds.waiting j fun m' turn' => ?_).of_same fun frame _ => Frame.writing?_of_sameWriters writers frame
      cases turn.symm.trans turn'
      exact other rfl
    cases moved : m.step with
    | inl next =>
      rw [moved] at stored others
      rw [advanced_inl turn moved]
      refine ⟨⟨after, _, stored, still, wrote, goes⟩, holds.sound_update sound, ?_, ?_⟩
      · intro j waits
        have other : j ≠ i := fun same => waits next (by rw [same])
        simp only [Function.update_of_ne other]
        exact others j other
      · rintro j m' ⟨⟩
        refine ⟨rfl, ?_⟩
        simp only [Function.update_self]
        exact follows.step moved
    | inr result =>
      obtain ⟨halt, last⟩ := result
      rw [moved] at stored others
      rw [advanced_inr turn moved]
      refine ⟨⟨after, _, stored, still, wrote, goes⟩, holds.sound_update sound, ?_, ?_⟩
      · intro j _
        by_cases same : j = i
        · subst same
          simp only [Function.update_self]
          cases halt with
          | paused reason => exact follows.pause moved
          | finished | failed e => exact World.Quiet.resumes (by simp [World.Quiet, Executor.settled])
        · simp only [Function.update_of_ne same]
          exact others j same
      · rintro j m' ⟨⟩

end Holds

theorem Reachable.holds {w : World} (reachable : s.Reachable u w) (found : w.file? u = some start)
    (stream : start.IsStream) : s.Holds u start := by
  induction reachable with
  | start idle =>
    refine ⟨⟨start, [], found, stream, (List.append_nil _).symm, .nothing⟩, by simp, ?_, by simp⟩
    intro i _
    simp only [idle]
    exact World.Quiet.resumes (by simp [World.Quiet])
  | called before resting pushed ih =>
    refine ih.executor resting (World.Quiet.resumes ?_)
    rw [Executor.callStack_of_pushCall pushed]
    simp [World.Quiet, Frame.writing?_eq_some]
  | renewed before resting empty ih =>
    refine ih.executor resting (World.Quiet.resumes ?_)
    simp [empty, World.Quiet]
  | begun before resting paused ih =>
    refine ⟨ih.written, ih.sound, ?_, ?_⟩
    · intro j _
      exact ih.waiting j (by simp [resting])
    · rintro _ m ⟨⟩
      exact ⟨rfl, ih.waiting _ (by simp [resting])⟩
  | advanced before ih => exact ih.advanced
  | meanwhile before resting file functions ih =>
    obtain ⟨h, whole, found, rest⟩ := ih.written
    refine ⟨⟨h, whole, file.trans found, rest⟩, ih.sound, ?_, ?_⟩
    · intro i _
      refine (ih.waiting i (by simp [resting])).of_same fun frame member => ?_
      simp only [Frame.writing?, functions i frame member]
    · intro i m turn
      cases resting.symm.trans turn

/-- No byte that is written to the handle is lost, written again or out of order. -/
structure Accounted (u : UserdataId) (start : Handle) (s : Tasks ι) : Prop where
  /-- What the sink has accepted and what is pending interleave the parts that the calls have been
  taken of their data. -/
  interleaved : ∃ h whole, s.world.file? u = some h ∧
    h.accepted ++ h.pending = start.accepted ++ start.pending ++ whole ∧ Interleaving s.sent whole
  offsets : ∀ i, ∀ call ∈ s.calls i, call.taken ≤ call.data.length
  /-- A call that has returned has been taken all of its data. -/
  returned : ∀ i, ∀ call ∈ s.calls i, call.returned = true → call.taken = call.data.length
  /-- The offset of a call that is suspended is the one that its frame keeps. -/
  suspended : ∀ i, (∀ m, s.turn ≠ some (i, m)) → ∀ frame ∈ (s.executors i).callStack, ∀ r,
    frame.writing? s.world = some r → r.file = u → (s.calls i).getLast? = some ⟨r.data, r.taken, false⟩
  /-- After a flush or a close that returns, the sink has accepted everything. -/
  flushed : ∀ i m next, s.turn = some (i, m) → m.activity.Finishes u m.core → m.step = .inl next →
    ∃ h whole, next.core.world.file? u = some h ∧ h.pending = [] ∧
      h.accepted = start.accepted ++ start.pending ++ whole ∧ Interleaving (s.advanced u).sent whole

/-- Whatever the turns are that tasks take, and however the sink takes the bytes, what is written to
a stream is accounted for at every moment. -/
theorem Reachable.accounted {w : World} (found : w.file? u = some start) (stream : start.IsStream)
    (reachable : s.Reachable u w) : s.Accounted u start := by
  have holds := reachable.holds found stream
  obtain ⟨h, whole, there, streams, written, interleaved⟩ := holds.written
  refine ⟨⟨h, whole, there, written, interleaved⟩, ?_, ?_, ?_, ?_⟩
  · exact fun i call member => (holds.sound i call member).1
  · exact fun i call member => (holds.sound i call member).2
  · intro i waits frame member r writing file
    have resumes := holds.waiting i waits
    generalize (s.executors i).callStack = frames at member resumes
    cases frames with
    | nil => cases member
    | cons first others =>
      rcases List.mem_cons.mp member with rfl | member
      · exact resumes.first frame rfl r writing file
      · exact absurd file (resumes.others frame member r writing)
  · intro i m next turn finishes moved
    obtain ⟨world, _⟩ := holds.running i m turn
    obtain ⟨after, left, none⟩ := Machine.finished (world ▸ there) streams finishes moved
    obtain ⟨h, whole, there, _, written, interleaved⟩ := holds.advanced.written
    rw [advanced_inl turn moved] at there
    cases left.symm.trans there
    refine ⟨after, whole, left, none, ?_, interleaved⟩
    rw [Handle.written, none, List.append_nil] at written
    exact written

private def sharedStream : Handle :=
  { channel := .stream none (some { writes := [.upTo 2, .block, .interrupt, .upTo 1, .block] }), buffering := .no }

private def sharedWorld : World :=
  { functions := #[.builtin .fileWrite, .builtin .fileFlush], objects := #[⟨.file sharedStream, none⟩] }

private def idleExecutor : Executor := { context := { stack := ⟨#[.nil, .nil], 0⟩, budget := Budget.new {} } }

private def writer (text : String) : Executor := (idleExecutor.pushCall ⟨0⟩ [.userdata ⟨0⟩, .str text]).2

private def setUp : Tasks Bool :=
  { world := sharedWorld
    executors := Function.update (Function.update (fun _ => idleExecutor) true (writer "abc")) false (writer "xy") }

/-- The turn of a task, as far as its first steps. -/
private def taking (i : Bool) (steps : Nat) (s : Tasks Bool) : Tasks Bool :=
  (advanced ⟨0⟩)^[steps] { s with turn := some (i, (s.executors i).machine s.world) }

private theorem Reachable.taking {s : Tasks Bool} (before : s.Reachable ⟨0⟩ sharedWorld) (resting : s.turn = none)
    {i : Bool} (paused : (s.executors i).isPaused = true) (steps : Nat) : (taking i steps s).Reachable ⟨0⟩ sharedWorld := by
  unfold Tasks.taking
  induction steps with
  | zero => exact before.begun resting paused
  | succ steps ih =>
    rw [Function.iterate_succ_apply']
    exact ih.advanced

/-- Two tasks write in turns: the sink blocks after two bytes of the first and one of the second, and
takes the rest of the first when it is resumed. -/
theorem Reachable.accounted_turns : ∃ s : Tasks Bool, s.Reachable ⟨0⟩ sharedWorld ∧
    s.calls true = [⟨[97, 98, 99], 3, true⟩] ∧ s.calls false = [⟨[120, 121], 1, false⟩] ∧
    (s.world.file? ⟨0⟩).map Handle.accepted = some [97, 98, 120, 99] ∧ s.Accounted ⟨0⟩ sharedStream := by
  have first : (idleExecutor.pushCall ⟨0⟩ [.userdata ⟨0⟩, .str "abc"]) = (.ok (), writer "abc") := rfl
  have second : (idleExecutor.pushCall ⟨0⟩ [.userdata ⟨0⟩, .str "xy"]) = (.ok (), writer "xy") := rfl
  have idle : Reachable ⟨0⟩ sharedWorld ({ world := sharedWorld, executors := fun _ => idleExecutor } : Tasks Bool) :=
    .start fun _ => rfl
  have start : Reachable ⟨0⟩ sharedWorld setUp := (idle.called (i := true) rfl first).called (i := false) rfl second
  have paused := start.taking (i := true) rfl (by decide +kernel) 2
  have between := paused.taking (i := false) (Option.isNone_iff_eq_none.mp (by decide +kernel)) (by decide +kernel) 2
  have reachable := between.taking (i := true) (Option.isNone_iff_eq_none.mp (by decide +kernel)) (by decide +kernel) 2
  exact ⟨_, reachable, by decide +kernel, by decide +kernel, by decide +kernel,
    Reachable.accounted (w := sharedWorld) rfl ⟨_, _, rfl⟩ reachable⟩

end Tasks

end CoopScript
