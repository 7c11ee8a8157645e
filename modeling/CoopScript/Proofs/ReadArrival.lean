import CoopScript.Proofs.ClearRegisters
import CoopScript.Proofs.FileCalls

/-! Reading from a stream. A source delivers a byte string in chunks of any size, and may be
interrupted or block in between. Calls that read from it, one after another and from any place, are
suspended once for each block and in the end have the items of the byte string. -/

namespace CoopScript

/-- The delivery brings bytes, or none now; it is neither the end nor a failure. -/
def Delivery.Plain : Delivery → Prop
  | .data bytes => bytes ≠ []
  | .block | .interrupt => True
  | .eof | .fail _ => False

instance : DecidablePred Delivery.Plain
  | .data bytes => inferInstanceAs (Decidable (bytes ≠ []))
  | .block | .interrupt => isTrue trivial
  | .eof | .fail _ => isFalse id

namespace Source

/-- All bytes that the source delivers. -/
def bytes : Source → Bytes
  | [] => []
  | .data chunk :: rest => chunk ++ bytes rest
  | _ :: rest => bytes rest

/-- How often the source blocks. -/
def blocks : Source → Nat
  | [] => 0
  | .block :: rest => blocks rest + 1
  | _ :: rest => blocks rest

def Plain (source : Source) : Prop := ∀ delivery ∈ source, delivery.Plain

theorem length_bytes_le (source : Source) : source.bytes.length ≤ source.extent := by
  induction source with
  | nil => rfl
  | cons delivery rest ih =>
    cases delivery with
    | data chunk =>
      simp only [bytes, extent, List.length_append]
      omega
    | _ =>
      simp only [bytes, extent]
      omega

/-- What one call to a source comes to. -/
inductive Yields (source : Source) : Except DeviceError Bytes × Source → Prop where
  | chunk {chunk : Bytes} {rest : Source} (some : chunk ≠ []) (plain : rest.Plain) (first : source.bytes = chunk ++ rest.bytes)
      (same : rest.blocks = source.blocks) : Yields source (.ok chunk, rest)
  | ended {rest : Source} (plain : rest.Plain) (none : source.bytes = []) (left : rest.bytes = [])
      (same : rest.blocks = source.blocks) : Yields source (.ok [], rest)
  | blocked {rest : Source} (plain : rest.Plain) (left : rest.bytes = source.bytes) (one : source.blocks = rest.blocks + 1) :
      Yields source (.error .wouldBlock, rest)

theorem read_yields {source : Source} (plain : source.Plain) : source.Yields source.read := by
  induction source with
  | nil => exact .ended plain rfl rfl rfl
  | cons delivery rest ih =>
    obtain ⟨first, others⟩ : delivery.Plain ∧ Plain rest := List.forall_mem_cons.mp plain
    cases delivery with
    | data chunk =>
      have some : chunk.take chunkSize ≠ [] := by
        cases chunk with
        | nil => exact absurd rfl first
        | cons b chunk => simp [chunkSize]
      simp only [read]
      split
      · next whole =>
        refine .chunk some others ?_ rfl
        have all : chunk.take chunkSize = chunk := by simpa using whole
        rw [all]
        rfl
      · next cut =>
        refine .chunk some ?_ ?_ rfl
        · refine List.forall_mem_cons.mpr ⟨?_, others⟩
          simpa [Delivery.Plain] using cut
        · simp only [bytes]
          rw [← List.append_assoc, List.take_append_drop]
    | block => exact .blocked others rfl rfl
    | interrupt =>
      have yields := ih others
      rw [read]
      generalize read rest = result at yields
      cases yields with
      | chunk some plain first same => exact .chunk some plain first same
      | ended plain none left same => exact .ended plain none left same
      | blocked plain left one => exact .blocked plain left one
    | eof | fail _ => cases first

end Source

/-- An open stream that delivers from the source, with nothing to be written first. -/
structure Handle.Streams (h : Handle) (source : Source) (sink : Option Sink) : Prop where
  channel : h.channel = .stream (some source) sink
  opened : h.closed = false
  idle : h.pending = []
  plain : source.Plain

namespace Feed

open Transfer

theorem readChunk_stream {sink : Option Sink} {t : Transfer} {source : Source} (streams : t.handle.Streams source sink) :
    readChunk t =
      (source.read.1, { t with handle := { t.handle with channel := .stream (some source.read.2) sink } }) := by
  have readable : t.handle.isReadable = true := by simp [Handle.isReadable, streams.opened, streams.channel]
  simp only [readChunk, bind_apply, getHandle_apply, readable, streams.channel, Bool.not_true, Bool.false_eq_true, if_false,
    setChannel_apply]
  cases source.read.1 <;> rfl

theorem fill_stream {sink : Option Sink} {t : Transfer} {source : Source} (streams : t.handle.Streams source sink) :
    Fills (fun h _ left blocks => ∃ source : Source, h.Streams source sink ∧ source.bytes = left ∧ source.blocks = blocks)
      t source.bytes source.blocks (fill t) := by
  rw [fill_of_nil streams.idle, readChunk_stream streams]
  have yields := Source.read_yields streams.plain
  generalize source.read = result at yields
  cases yields with
  | chunk some plain first same =>
    exact .chunk some first rfl rfl ⟨_, ⟨rfl, streams.opened, streams.idle, plain⟩, rfl, same⟩
  | ended plain none left same =>
    exact .ended none (List.append_nil _) rfl ⟨_, ⟨rfl, streams.opened, streams.idle, plain⟩, left, same⟩
  | blocked plain left one =>
    exact .blocked one rfl rfl ⟨_, ⟨rfl, streams.opened, streams.idle, plain⟩, left, rfl⟩

/-- Streams as devices to read from. -/
def stream (sink : Option Sink) : Feed where
  holds h _ left blocks := ∃ source : Source, h.Streams source sink ∧ source.bytes = left ∧ source.blocks = blocks
  unread := by
    rintro h disk left blocks ahead ⟨source, streams, delivers, blocked⟩ _
    exact ⟨source, ⟨streams.channel, streams.opened, streams.idle, streams.plain⟩, delivers, blocked⟩
  rounds := by
    rintro t left blocks ⟨source, streams, rfl, _⟩
    have bounded := source.length_bytes_le
    simp only [chunksLeft, streams.channel]
    omega
  fills := by
    rintro t left blocks ⟨source, streams, rfl, rfl⟩
    exact fill_stream streams

end Feed

namespace Window

open RegisterStack

/-- The window holds these values, and the cursor is where they end. -/
structure Shows (w : Window) (s : RegisterStack) (held : List Value) : Prop where
  values : w.values s = held
  top : s.top = w.offset + held.length
  fits : s.top ≤ s.capacity

variable {w : Window} {s : RegisterStack} {held : List Value}

theorem Shows.of_get (top : s.top = w.offset + held.length) (fits : s.top ≤ s.capacity)
    (each : ∀ i, (inside : i < held.length) → s.get (w.offset + i) = held[i]) : w.Shows s held := by
  refine ⟨?_, top, fits⟩
  have height : w.top s = held.length := by
    rw [Window.top, top]
    omega
  apply List.ext_getElem?
  intro i
  rw [values_getElem? fits, height]
  by_cases inside : i < held.length
  · rw [if_pos inside, List.getElem?_eq_getElem inside]
    exact congrArg some (each i inside)
  · rw [if_neg inside, List.getElem?_eq_none (Nat.not_lt.mp inside)]

theorem Shows.get (shows : w.Shows s held) {i : Nat} (inside : i < held.length) : s.get (w.offset + i) = held[i] := by
  have height : w.top s = held.length := by
    rw [Window.top, shows.top]
    omega
  have found := values_getElem? (w := w) shows.fits i
  rw [height, if_pos inside, shows.values, List.getElem?_eq_getElem inside] at found
  exact (Option.some.inj found).symm

theorem setTop_shows (fits : w.offset ≤ s.capacity) :
    ∃ t, w.setTop 0 s = (.ok (), t) ∧ w.Shows t [] ∧ t.capacity = s.capacity := by
  have capacity := s.raised_capacity w.offset
  refine ⟨s.raised w.offset, ?_, .of_get rfl (capacity ▸ fits) (by simp), capacity⟩
  rw [setTop, Nat.add_zero, setTop_apply, if_neg (Nat.not_lt.mpr fits)]
  rfl

theorem Shows.push (shows : w.Shows s held) (more : List Value) (fits : s.top + more.length ≤ s.capacity) :
    ∃ t, RegisterStack.push more s = (.ok (), t) ∧ w.Shows t (held ++ more) ∧ t.capacity = s.capacity := by
  have capacity := (s.write_sameShape s.top more).capacity
  have top := shows.top
  refine ⟨{ s.write s.top more with top := s.top + more.length }, ?_, .of_get ?_ ?_ ?_, capacity⟩
  · rw [push_apply, if_neg (by omega)]
  · simp only [List.length_append]
    omega
  · change s.top + more.length ≤ (s.write s.top more).capacity
    omega
  · intro i inside
    rw [List.length_append] at inside
    change (s.write s.top more).get (w.offset + i) = _
    by_cases first : i < held.length
    · rw [get_write _ _ (by omega), List.getElem_append_left first]
      exact shows.get first
    · have place : w.offset + i = s.top + (i - held.length) := by omega
      rw [place, get_written s s.top (by omega) fits, List.getElem_append_right (by omega)]

theorem ret_shows {results : List Value} (fits : w.offset + results.length ≤ s.capacity) :
    ∃ t, w.ret results s = (.ok (), t) ∧ w.Shows t results ∧ t.capacity = s.capacity := by
  obtain ⟨t, placed, empty, capacity⟩ := setTop_shows (w := w) (s := s) (by omega)
  have top : t.top = w.offset := empty.top
  obtain ⟨r, pushed, shows, same⟩ := empty.push results (by omega)
  refine ⟨r, ?_, shows, same.trans capacity⟩
  rw [ret, RegisterStack.bind_apply, placed]
  exact pushed

theorem Shows.push_first (empty : w.Shows s []) (v : Value) (fits : w.offset < s.capacity) :
    ∃ t, w.push v s = (.ok (), t) ∧ w.Shows t [v] ∧ t.capacity = s.capacity := by
  have bottom : w.top s = 0 := by
    rw [Window.top, empty.top]
    exact Nat.sub_self _
  have room : ¬w.size s ≤ w.top s := by
    rw [bottom, Window.size]
    omega
  have capacity := (s.set_sameShape w.offset v).capacity
  have same := (s.set w.offset v).raised_capacity (w.offset + 1)
  have height : (s.set w.offset v).top = w.offset := empty.top
  refine ⟨(s.set w.offset v).raised (w.offset + 1), ?_, .of_get rfl ?_ ?_, same.trans capacity⟩
  · simp only [Window.push]
    change (if w.size s ≤ w.top s then _ else _ : StackM Unit) s = _
    rw [if_neg room]
    change RegisterStack.setTop (w.offset + w.top s + 1) (s.set (w.offset + w.top s) v) = _
    simp only [bottom, Nat.add_zero]
    rw [setTop_apply, if_neg (by omega)]
    rfl
  · rw [same, capacity]
    exact fits
  · intro i inside
    obtain rfl : i = 0 := by simpa using inside
    rw [get_raised, if_neg (by omega), get_set, if_pos ⟨rfl, fits⟩]
    rfl

theorem prepend_shows (v : Value) (fits : w.offset + (w.values s).length + 1 ≤ s.capacity) :
    ∃ t, w.prepend v s = (.ok (), t) ∧ w.Shows t (v :: w.values s) ∧ t.capacity = s.capacity := by
  obtain ⟨t, placed, empty, capacity⟩ := setTop_shows (w := w) (s := s) (by omega)
  obtain ⟨r, put, single, same⟩ := empty.push_first v (by omega)
  have height : r.top = w.offset + 1 := single.top
  obtain ⟨final, pushed, shows, kept⟩ := single.push (w.values s) (by omega)
  refine ⟨final, ?_, shows, kept.trans (same.trans capacity)⟩
  change (w.setTop 0 >>= fun _ => w.push v >>= fun _ => w.pushAll (w.values s)) s = _
  rw [RegisterStack.bind_apply, placed]
  change (w.push v >>= fun _ => w.pushAll (w.values s)) t = _
  rw [RegisterStack.bind_apply, put]
  change (if r.top < w.offset then _ else _ : StackM Unit) r = _
  rw [if_neg (by omega)]
  exact pushed

end Window

theorem ReadFormat.length_takeEach_le (formats : List ReadFormat) (bytes : Bytes) :
    (takeEach formats bytes).1.length ≤ formats.length := by
  induction formats generalizing bytes with
  | nil => exact Nat.le_refl 0
  | cons format formats ih =>
    simp only [takeEach]
    split
    · simp
    · exact Nat.succ_le_succ (ih _)

theorem Core.performed_ret {f : FunctionId} {w : Window} {c : Core} {v : World} {results : List Value}
    (fits : w.offset + results.length ≤ c.context.stack.capacity) : ∃ t, w.Shows t results ∧
      c.performed f w (.ok (.ret results), v) = (.ok (.go .returned), ({ c with world := v } : Core).withStack t) := by
  obtain ⟨t, left, shows, _⟩ := Window.ret_shows fits
  refine ⟨t, shows, ?_⟩
  simp only [performed, Action.perform, bind_apply, onStack_apply, left]
  rfl

namespace Machine

/-- A stretch of a run through all suspensions on the way, with their reasons. -/
inductive Passes : Machine → List SuspendReason → Machine → Prop where
  | here {m} : Passes m [] m
  | next {m next reasons last} (moved : m.step = .inl next) (rest : Passes next reasons last) : Passes m reasons last
  | pause {m paused reason reasons last} (halted : m.step = .inr (.paused reason, paused))
      (rest : Passes paused.restarted reasons last) : Passes m (reason :: reasons) last

theorem Passes.trans {m n last : Machine} {first rest : List SuspendReason} (start : Passes m first n)
    (goes : Passes n rest last) : Passes m (first ++ rest) last := by
  induction start with
  | here => exact goes
  | next moved _ ih => exact .next moved (ih goes)
  | pause halted _ ih => exact .pause halted (ih goes)

/-- After a suspension the same frames wait, and the next drain resumes the function. -/
theorem passes_suspension {m : Machine} {reason : SuspendReason} {frame : Frame} {core : Core}
    (working : m.activity ≠ .returned) (stepped : m.activity.step m.core = (.ok (.suspend reason frame), core))
    (draining : core.context.draining = true) (able : (core.world.callable frame.function).isResumable = true) :
    ∃ next log, m.Passes [reason] next ∧ next.activity = frame.activity ∧ next.frames = m.frames ∧
      next.core.world = { core.world with log } ∧ next.core.context.stack = core.context.stack ∧
      next.core.context.draining = true := by
  let saved : Machine := { m with core }
  let paused : Machine :=
    { saved.log (saved.suspensionLines reason frame) with
      activity := .returned, callers := [], pending := frame :: m.frames }
  have halted : m.step = .inr (.paused reason, paused) := by
    rw [step_working rfl working, stepped]
    simp only [after, suspend, draining, if_true]
    rfl
  have waiting : paused.restarted.frames = frame :: m.frames := rfl
  obtain ⟨callers, pending, waits, moved⟩ := step_returned rfl waiting (.inr able)
  exact ⟨_, _, .pause halted (.next moved .here), rfl, waits, rfl, rfl, rfl⟩

/-- The call in the window has returned these results to the frames that wait for it. -/
structure Returns (base : Window) (frames : List Frame) (results : List Value) (m : Machine) : Prop where
  activity : m.activity = .returned
  frames : m.frames = frames
  results : base.values m.core.context.stack = results

end Machine

/-- The function goes on reading items when it is resumed. -/
def Callable.IsReader (c : Callable) : Prop := c = .builtin .fileRead ∨ ∃ u formats, c = .lines u formats

theorem Callable.IsReader.isResumable {c : Callable} (reader : c.IsReader) : c.isResumable = true := by
  obtain rfl | ⟨_, _, rfl⟩ := reader <;> rfl

theorem Callable.IsReader.resume {c : Callable} (reader : c.IsReader) (f : FunctionId) (w : Window) (r : ReadingItems)
    (core : Core) : c.resume f w (.reading r) core =
      core.performed f w (Files.readItems r.file r.results r.collected r.formats core.world) := by
  obtain rfl | ⟨u, formats, rfl⟩ := reader
  · exact Callable.resume_builtin .fileRead f w core (.reading r)
  · exact Callable.resume_lines u formats f w core r

namespace Feed

variable {feed : Feed} {m : Machine} {base : Window} {u : UserdataId} {blocks : Nat}

/-- The run is suspended for some of the blocks that the device has to come, and leads to the
return of the call with these results. -/
def LeadsTo (feed : Feed) (m : Machine) (base : Window) (u : UserdataId) (blocks : Nat) (results : List Value)
    (rest : Bytes) : Prop :=
  ∃ pauses left last, blocks = pauses + left ∧ m.Passes (List.replicate pauses .blocked) last ∧
    last.Returns base m.frames results ∧ m.core.world.Beside last.core.world ∧
    feed.Supplies last.core.world u rest left

theorem reads_on {f : FunctionId} {r : ReadingItems} {bytes : Bytes} (draining : m.core.context.draining = true)
    (reader : (m.core.world.callable f).IsReader) (supplies : feed.Supplies m.core.world r.file bytes blocks)
    (begun : r.Begun) (fits : base.offset + (r.outcome bytes).1.length ≤ m.core.context.stack.capacity)
    (working : m.activity ≠ .returned) (stepped : m.activity.step m.core =
      m.core.performed f base (Files.readItems r.file r.results r.collected r.formats m.core.world)) :
    feed.LeadsTo m base r.file blocks (r.outcome bytes).1 (r.outcome bytes).2 := by
  -- on the blocks to come: an attempt that is blocked has used up one of them
  induction blocks using Nat.strong_induction_on generalizing m r bytes with
  | _ blocks ih =>
    have attempt := readItems_attempt supplies begun
    generalize Files.readItems r.file r.results r.collected r.formats m.core.world = answer at attempt stepped
    cases attempt with
    | @finished v values rest beside outcome still =>
      rw [outcome] at fits ⊢
      obtain ⟨t, shows, performed⟩ := Core.performed_ret (f := f) (w := base) (v := v) fits
      have moved : m.step =
          .inl { m with core := ({ m.core with world := v } : Core).withStack t, activity := .returned } := by
        rw [Machine.step_working rfl working, stepped, performed]
        rfl
      exact ⟨0, blocks, _, (Nat.zero_add _).symm, .next moved .here, ⟨rfl, rfl, shows.values⟩, beside, still⟩
    | @blocked v next left fewer beside file begun one outcome still =>
      have same : v.callable f = m.core.world.callable f := beside.callable f
      have reader : (v.callable f).IsReader := same ▸ reader
      obtain ⟨after, log, passes, active, frames, world, stack, drains⟩ :=
        Machine.passes_suspension working stepped draining reader.isResumable
      have goes : feed.LeadsTo after base next.file fewer (next.outcome left).1 (next.outcome left).2 := by
        refine ih fewer (by omega) drains ?_ ?_ begun ?_ ?_ ?_
        · rw [world]
          exact reader
        · rw [world, file]
          exact still
        · rw [outcome, stack]
          exact fits
        · rw [active]
          simp [Frame.activity]
        · rw [active]
          exact Callable.IsReader.resume (by rw [world]; exact reader) f base next after.core
      obtain ⟨pauses, rest, last, count, onward, returns, besides, supplies⟩ := goes
      rw [outcome, frames] at returns
      rw [outcome, file] at supplies
      rw [world] at besides
      refine ⟨pauses + 1, rest, last, by omega, passes.trans onward, returns, ?_, supplies⟩
      exact beside.trans ⟨besides.functions, besides.io⟩

theorem reads_begun {f : FunctionId} {formats : List ReadFormat} {bytes : Bytes}
    (draining : m.core.context.draining = true) (reader : (m.core.world.callable f).IsReader)
    (supplies : feed.Supplies m.core.world u bytes blocks)
    (fits : base.offset + formats.length ≤ m.core.context.stack.capacity) (working : m.activity ≠ .returned)
    (stepped : m.activity.step m.core = m.core.performed f base (Files.readItems u [] [] formats m.core.world)) :
    feed.LeadsTo m base u blocks (ReadFormat.takeEach formats bytes).1 (ReadFormat.takeEach formats bytes).2 := by
  have few := ReadFormat.length_takeEach_le formats bytes
  exact reads_on (r := ⟨u, formats, [], []⟩) draining reader supplies (ReadingItems.begun_nil u formats [])
    (show base.offset + (ReadFormat.takeEach formats bytes).1.length ≤ _ by omega) working stepped

variable {sink : Option Sink}

theorem open_of_supplies {w : World} {bytes : Bytes} (supplies : (stream sink).Supplies w u bytes blocks) :
    ∃ h, w.file? u = some h ∧ h.closed = false := by
  obtain ⟨h, left, found, ⟨source, streams, _⟩, _⟩ := supplies
  exact ⟨h, found, streams.opened⟩

theorem method_reads {f : FunctionId} {args : List Value} {formats : List ReadFormat} {bytes : Bytes}
    (entered : m.activity = .enter f base) (callee : m.core.world.callable f = .builtin .fileRead)
    (given : base.values m.core.context.stack = .userdata u :: args)
    (named : Builtin.fileRead.operation? args = some (.read formats)) (draining : m.core.context.draining = true)
    (supplies : (stream sink).Supplies m.core.world u bytes blocks)
    (fits : base.offset + formats.length ≤ m.core.context.stack.capacity) :
    (stream sink).LeadsTo m base u blocks (ReadFormat.takeEach formats bytes).1 (ReadFormat.takeEach formats bytes).2 := by
  refine reads_begun draining (.inl callee) supplies fits (by simp [entered]) ?_
  obtain ⟨h, found, opened⟩ := open_of_supplies supplies
  have asked : m.core.world.asked? .fileRead (.userdata u :: args) = some (u, .read formats) := by
    simp [World.asked?, World.openFile?, found, opened, named]
  rw [entered, Activity.step_enter, callee, Callable.invoke_builtin, given, World.invoke_of_asked asked]
  rfl

theorem iteration_reads {f : FunctionId} {formats : List ReadFormat} {bytes : Bytes} (entered : m.activity = .enter f base)
    (callee : m.core.world.callable f = .lines u formats) (draining : m.core.context.draining = true)
    (supplies : (stream sink).Supplies m.core.world u bytes blocks)
    (fits : base.offset + formats.length ≤ m.core.context.stack.capacity) :
    (stream sink).LeadsTo m base u blocks (ReadFormat.takeEach formats bytes).1 (ReadFormat.takeEach formats bytes).2 := by
  refine reads_begun draining (.inr ⟨u, formats, callee⟩) supplies fits (by simp [entered]) ?_
  obtain ⟨h, found, opened⟩ := open_of_supplies supplies
  have next : Files.nextItems u formats m.core.world = Files.readItems u [] [] formats m.core.world := by
    rw [Files.nextItems, World.read_apply, found]
    simp only [opened, Bool.false_eq_true, if_false]
  rw [entered, Activity.step_enter, callee, Callable.invoke_lines, next]

theorem forwarded_reads {f : FunctionId} {formats : List ReadFormat} {bytes : Bytes} (entered : m.activity = .enter f base)
    (callee : m.core.world.callable f = .builtin .ioRead) (input : m.core.world.io.input = u)
    (method : m.core.world.callable m.core.world.io.read = .builtin .fileRead)
    (named : Builtin.fileRead.operation? (base.values m.core.context.stack) = some (.read formats))
    (draining : m.core.context.draining = true) (supplies : (stream sink).Supplies m.core.world u bytes blocks)
    (fits : base.offset + formats.length ≤ m.core.context.stack.capacity)
    (room : base.offset + (base.values m.core.context.stack).length + 1 ≤ m.core.context.stack.capacity) :
    (stream sink).LeadsTo m base u blocks (ReadFormat.takeEach formats bytes).1 (ReadFormat.takeEach formats bytes).2 := by
  obtain ⟨t, placed, shows, capacity⟩ := Window.prepend_shows (.userdata u) room
  -- the handle goes before the arguments, the method is called, and its results are passed on
  let called : Machine :=
    { m with
      core := m.core.withStack t
      activity := .enter m.core.world.io.read base
      callers := ⟨f, base, some .unit⟩ :: m.callers }
  have forwards : m.Passes [] called := by
    have stepped : m.activity.step m.core =
        (.ok (.call ⟨f, base, some .unit⟩ (.function m.core.world.io.read) base), m.core.withStack t) := by
      rw [entered, Activity.step_enter, callee, Callable.invoke_builtin]
      simp only [Builtin.invoke, Io.forward, World.read_apply]
      change (Core.onStack (base.prepend (.userdata m.core.world.io.input)) >>= fun _ => pure _ : CoreM Move) m.core = _
      rw [input, Core.bind_apply, Core.onStack_apply, placed]
      rfl
    have moved : m.step = .inl { called with activity := .dispatch (.function m.core.world.io.read) base } := by
      rw [Machine.step_working rfl (by simp [entered]), stepped]
      rfl
    exact .next moved (.next rfl .here)
  have reads : (stream sink).LeadsTo called base u blocks _ _ :=
    method_reads rfl method shows.values named draining supplies (capacity ▸ fits)
  obtain ⟨pauses, left, last, count, passes, returns, beside, still⟩ := reads
  have same : last.core.world.callable f = .builtin .ioRead := (beside.callable f).trans callee
  obtain ⟨callers, pending, waits, moved⟩ := Machine.step_returned returns.activity returns.frames
    (.inr (by rw [same]; rfl))
  let final : Machine := { last with activity := .returned, callers, pending }
  have ends : last.Passes [] final := by
    refine .next moved (.next ?_ .here)
    rw [Machine.step_working rfl (by simp [Frame.activity])]
    change Machine.after _ (((last.core.world.callable f).resume f base .unit) last.core) = _
    rw [same]
    rfl
  refine ⟨pauses, left, final, count, ?_, ⟨rfl, waits, returns.results⟩, ⟨beside.functions, beside.io⟩, still⟩
  have whole := (forwards.trans passes).trans ends
  rwa [List.append_nil] at whole

end Feed

/-- What calls take one after another, each by its own formats. -/
def ReadFormat.takeCalls : List (List ReadFormat) → Bytes → List (List Value) × Bytes
  | [], bytes => ([], bytes)
  | formats :: calls, bytes =>
    let (values, rest) := takeEach formats bytes
    let (results, rest) := takeCalls calls rest
    (values :: results, rest)

/-- Where in a drain a call is made: the machine at that moment, but for the world. -/
structure CallSite where
  function : FunctionId
  base : Window
  stack : RegisterStack
  budget : Budget
  callers : List Frame
  pending : List Frame

namespace CallSite

def machine (site : CallSite) (w : World) : Machine :=
  { core := ⟨w, ⟨site.stack, site.budget, true⟩⟩
    activity := .enter site.function site.base
    callers := site.callers
    pending := site.pending }

/-- The call reads items of the handle: as a method of it, as a function on the default input, or
by an iteration. There is room for the results and for the handle among the arguments. -/
inductive Reads (site : CallSite) (w : World) (u : UserdataId) (formats : List ReadFormat) : Prop where
  | method {args : List Value} (callee : w.callable site.function = .builtin .fileRead)
      (given : site.base.values site.stack = .userdata u :: args)
      (named : Builtin.fileRead.operation? args = some (.read formats))
      (fits : site.base.offset + formats.length ≤ site.stack.capacity)
  | default (callee : w.callable site.function = .builtin .ioRead) (input : w.io.input = u)
      (method : w.callable w.io.read = .builtin .fileRead)
      (named : Builtin.fileRead.operation? (site.base.values site.stack) = some (.read formats))
      (fits : site.base.offset + formats.length ≤ site.stack.capacity)
      (room : site.base.offset + (site.base.values site.stack).length + 1 ≤ site.stack.capacity)
  | iteration (callee : w.callable site.function = .lines u formats)
      (fits : site.base.offset + formats.length ≤ site.stack.capacity)

theorem Reads.of_beside {site : CallSite} {w v : World} {u : UserdataId} {formats : List ReadFormat}
    (reads : site.Reads w u formats) (beside : w.Beside v) : site.Reads v u formats := by
  cases reads with
  | method callee given named fits => exact .method ((beside.callable _).trans callee) given named fits
  | default callee input method named fits room =>
    rw [← beside.callable] at callee method
    rw [← beside.io] at input method
    exact .default callee input method named fits room
  | iteration callee fits => exact .iteration ((beside.callable _).trans callee) fits

theorem Reads.leadsTo {site : CallSite} {w : World} {u : UserdataId} {formats : List ReadFormat} {sink : Option Sink}
    {bytes : Bytes} {blocks : Nat} (reads : site.Reads w u formats)
    (supplies : (Feed.stream sink).Supplies w u bytes blocks) :
    (Feed.stream sink).LeadsTo (site.machine w) site.base u blocks (ReadFormat.takeEach formats bytes).1
      (ReadFormat.takeEach formats bytes).2 := by
  cases reads with
  | method callee given named fits => exact Feed.method_reads rfl callee given named rfl supplies fits
  | default callee input method named fits room =>
    exact Feed.forwarded_reads rfl callee input method named rfl supplies fits room
  | iteration callee fits => exact Feed.iteration_reads rfl callee rfl supplies fits

/-- Calls that are made one after another and each return to the frames that wait for them, with
the reasons of all suspensions and the results of each call. -/
inductive Served : World → List CallSite → List SuspendReason → List (List Value) → World → Prop where
  | none {w : World} : Served w [] [] [] w
  | call {w final : World} {site : CallSite} {sites : List CallSite} {last : Machine} {first rest : List SuspendReason}
      {results : List (List Value)} (passes : (site.machine w).Passes first last) (returned : last.activity = .returned)
      (back : last.frames = site.callers ++ site.pending) (later : Served last.core.world sites rest results final) :
      Served w (site :: sites) (first ++ rest) (site.base.values last.core.context.stack :: results) final

theorem served_supplied {w : World} {u : UserdataId} {sink : Option Sink} {bytes : Bytes} {blocks : Nat}
    (supplies : (Feed.stream sink).Supplies w u bytes blocks) (calls : List (CallSite × List ReadFormat))
    (asks : ∀ call ∈ calls, call.1.Reads w u call.2) : ∃ pauses left v, blocks = pauses + left ∧
      Served w (calls.map Prod.fst) (List.replicate pauses .blocked) (ReadFormat.takeCalls (calls.map Prod.snd) bytes).1 v ∧
      (Feed.stream sink).Supplies v u (ReadFormat.takeCalls (calls.map Prod.snd) bytes).2 left := by
  induction calls generalizing w bytes blocks with
  | nil => exact ⟨0, blocks, w, (Nat.zero_add _).symm, .none, supplies⟩
  | cons call calls ih =>
    obtain ⟨now, later⟩ := List.forall_mem_cons.mp asks
    obtain ⟨pauses, between, last, count, passes, returns, beside, still⟩ := now.leadsTo supplies
    obtain ⟨more, left, v, counts, served, final⟩ := ih still fun call member => (later call member).of_beside beside
    refine ⟨pauses + more, left, v, by omega, ?_, final⟩
    have whole := Served.call passes returns.activity returns.frames served
    rw [returns.results, ← List.replicate_add] at whole
    exact whole

/-- However the bytes of a stream arrive, calls that read from it return the items of the byte
string, each call up to its first nil, and leave the bytes after them. They are suspended as often
as the source blocks until then, and for no other reason. -/
theorem served_by_bytes {w : World} {u : UserdataId} {h : Handle} {source : Source} {sink : Option Sink}
    (found : w.file? u = some h) (streams : h.Streams source sink) (calls : List (CallSite × List ReadFormat))
    (asks : ∀ call ∈ calls, call.1.Reads w u call.2) : ∃ pauses v after left,
      Served w (calls.map Prod.fst) (List.replicate pauses .blocked)
        (ReadFormat.takeCalls (calls.map Prod.snd) (h.ahead ++ source.bytes)).1 v ∧
      v.file? u = some after ∧ after.Streams left sink ∧
      after.ahead ++ left.bytes = (ReadFormat.takeCalls (calls.map Prod.snd) (h.ahead ++ source.bytes)).2 ∧
      source.blocks = pauses + left.blocks := by
  have supplies : (Feed.stream sink).Supplies w u (h.ahead ++ source.bytes) source.blocks :=
    ⟨h, source.bytes, found, ⟨source, streams, rfl, rfl⟩, rfl⟩
  obtain ⟨pauses, _, v, count, served, after, _, there, ⟨left, still, rfl, rfl⟩, rest⟩ := served_supplied supplies calls asks
  exact ⟨pauses, v, after, left, served, there, still, rest.symm, count⟩

private def trickling : Source :=
  [.data [49], .block, .data [50, 32, 120], .interrupt, .block, .data [121, 10, 122]]

private def listening : World :=
  { functions := #[.builtin .fileRead, .builtin .ioRead, .lines ⟨0⟩ [.count 2, .all, .line false, .all]]
    objects := #[⟨.file (Handle.ofStream (some trickling) none true), none⟩] }

private def reading (f : FunctionId) (args : List Value) : CallSite :=
  { function := f
    base := ⟨0⟩
    stack := ⟨(args ++ List.replicate 4 Value.nil).toArray, args.length⟩
    budget := Budget.new {}
    callers := []
    pending := [] }

private def asking : List (CallSite × List ReadFormat) :=
  [(reading ⟨0⟩ [.userdata ⟨0⟩, .str "n"], [.number]), (reading ⟨1⟩ [], [.line false]),
    (reading ⟨2⟩ [], [.count 2, .all, .line false, .all])]

/-- The source blocks within a numeral and within a line; the iteration stops where there is no
other line. -/
theorem served_by_bytes_trickling : ∃ pauses v after left,
    Served listening (asking.map Prod.fst) (List.replicate pauses .blocked)
      [[.int 12], [.str " xy"], [.str "z", .str "", .nil]] v ∧
    v.file? ⟨0⟩ = some after ∧ after.Streams left none ∧ after.ahead ++ left.bytes = [] ∧ 2 = pauses + left.blocks := by
  have streams : (Handle.ofStream (some trickling) none true).Streams trickling none := by
    refine ⟨rfl, rfl, rfl, ?_⟩
    unfold Source.Plain
    decide
  have asks : ∀ call ∈ asking, call.1.Reads listening ⟨0⟩ call.2 := by
    intro call member
    simp only [asking, List.mem_cons, List.not_mem_nil, or_false] at member
    rcases member with rfl | rfl | rfl
    · exact .method rfl rfl rfl (by decide)
    · exact .default rfl rfl rfl rfl (by decide) (by decide)
    · exact .iteration rfl (by decide)
  have items : ReadFormat.takeCalls (asking.map Prod.snd)
      ((Handle.ofStream (some trickling) none true).ahead ++ trickling.bytes) =
        ([[.int 12], [.str " xy"], [.str "z", .str "", .nil]], []) := by cbv
  have served := served_by_bytes (w := listening) rfl streams asking asks
  rw [items] at served
  exact served

end CallSite

end CoopScript
