import CoopScript.Proofs.FileCalls

/-! Writing to a handle. What the sink of a stream has accepted and what is pending make up the
bytes written so far: no operation changes them but a write, which adds the part of its data that
it takes. -/

namespace CoopScript

/-- Whether so many pending bytes are to be written. -/
def Buffering.due : Buffering → Bytes → Bool
  | .no, _ => true
  | .full limit, pending => decide (limit ≤ pending.length)
  | .line limit, pending => pending.contains 10 || decide (limit ≤ pending.length)

namespace Handle

def IsStream (h : Handle) : Prop := ∃ source sink, h.channel = .stream source sink

/-- All bytes written to a stream, in order: those the sink has accepted, and those pending. -/
def written (h : Handle) : Bytes := h.accepted ++ h.pending

end Handle

theorem Sink.accept_le {count n : Nat} {script rest : List Acceptance}
    (accepted : Sink.accept count script = (.ok n, rest)) : 0 < n ∧ n ≤ count := by
  induction script with
  | nil =>
    simp only [accept, Prod.mk.injEq] at accepted
    split at accepted
    · simp at accepted
    · simp only [Except.ok.injEq] at accepted
      omega
  | cons first script ih =>
    cases first with
    | upTo most =>
      simp only [accept, Prod.mk.injEq] at accepted
      split at accepted
      · simp at accepted
      · simp only [Except.ok.injEq] at accepted
        omega
    | interrupt => exact ih accepted
    | block | fail _ => simp [accept] at accepted

/-- What one call to write to a sink comes to. -/
inductive Sink.Writes (s : Sink) (bytes : Bytes) : Except DeviceError Nat × Sink → Prop where
  | accepted {n : Nat} {after : Sink} (some : 0 < n) (most : n ≤ bytes.length)
      (more : after.accepted = s.accepted ++ bytes.take n) : Writes s bytes (.ok n, after)
  | refused {e : DeviceError} {after : Sink} (same : after.accepted = s.accepted) : Writes s bytes (.error e, after)

theorem Sink.write_writes (s : Sink) (bytes : Bytes) : s.Writes bytes (s.write bytes) := by
  unfold write
  split
  · next accepted =>
    obtain ⟨some, most⟩ := accept_le accepted
    exact .accepted some most rfl
  · exact .refused rfl

theorem Sink.flush_accepted (s : Sink) : s.flush.2.accepted = s.accepted := by
  unfold flush
  split <;> rfl

namespace Transfer

def withPending (t : Transfer) (pending : Bytes) : Transfer := { t with handle := { t.handle with pending } }

/-- The handle is still connected to a stream, with the same bytes written, and no more of the data
is taken. -/
structure Conveys (t after : Transfer) : Prop where
  stream : after.handle.IsStream
  written : after.handle.written = t.handle.written
  taken : after.taken = t.taken

theorem Conveys.refl {t : Transfer} (stream : t.handle.IsStream) : t.Conveys t := ⟨stream, rfl, rfl⟩

theorem Conveys.trans {t between after : Transfer} (first : t.Conveys between) (rest : between.Conveys after) :
    t.Conveys after :=
  ⟨rest.stream, rest.written.trans first.written, rest.taken.trans first.taken⟩

/-- An operation that neither loses nor adds a byte of what was written to a stream. -/
def Conserves {α : Type} (op : TransferM α) : Prop :=
  ∀ t : Transfer, t.handle.IsStream → t.Conveys (op t).2

namespace Conserves

variable {α β : Type}

theorem pure (a : α) : Conserves (Pure.pure a) := fun _ stream => .refl stream

theorem throw (e : DeviceError) : Conserves (throw e : TransferM α) := fun _ stream => .refl stream

theorem bind {op : TransferM α} {next : α → TransferM β} (first : Conserves op) (rest : ∀ a, Conserves (next a)) :
    Conserves (op >>= next) := by
  intro t stream
  have conveys := first t stream
  rw [bind_apply]
  generalize op t = result at conveys
  obtain ⟨_ | a, after⟩ := result
  · exact conveys
  · exact conveys.trans (rest a after conveys.stream)

theorem read {next : Transfer → TransferM α} (rest : ∀ t, Conserves (next t)) : Conserves (get >>= next) :=
  fun t stream => rest t t stream

theorem readHandle {next : Handle → TransferM α} (rest : ∀ h, Conserves (next h)) : Conserves (getHandle >>= next) :=
  fun t stream => rest t.handle t stream

theorem setAhead (ahead : Bytes) : Conserves (setAhead ahead) := fun _ stream => ⟨stream, rfl, rfl⟩

theorem setCollected (collected : Bytes) : Conserves (setCollected collected) := fun _ stream => ⟨stream, rfl, rfl⟩

end Conserves

/-- What one call that writes to a stream comes to: the first bytes are passed on, or nothing is. -/
inductive Sends (t : Transfer) (bytes : Bytes) : Except DeviceError Nat × Transfer → Prop where
  | sent {n : Nat} {after : Transfer} (some : 0 < n) (most : n ≤ bytes.length) (stream : after.handle.IsStream)
      (accepted : after.handle.accepted = t.handle.accepted ++ bytes.take n)
      (pending : after.handle.pending = t.handle.pending) (taken : after.taken = t.taken) : Sends t bytes (.ok n, after)
  | refused {e : DeviceError} {after : Transfer} (conveys : t.Conveys after)
      (pending : after.handle.pending = t.handle.pending) : Sends t bytes (.error e, after)

theorem writeSome_stream {t : Transfer} {source : Option Source} {s : Sink}
    (channel : t.handle.channel = .stream source (some s)) (opened : t.handle.closed = false) (bytes : Bytes) :
    writeSome bytes t =
      ((s.write bytes).1, { t with handle := { t.handle with channel := .stream source (some (s.write bytes).2) } }) := by
  have writable : t.handle.isWritable = true := by simp [Handle.isWritable, opened, channel]
  simp only [writeSome, bind_apply, getHandle_apply, writable, channel, Bool.not_true, Bool.false_eq_true, if_false,
    setChannel_apply]
  cases (s.write bytes).1 <;> rfl

theorem writeSome_sends {t : Transfer} (stream : t.handle.IsStream) (bytes : Bytes) :
    t.Sends bytes (writeSome bytes t) := by
  obtain ⟨source, sink, channel⟩ := stream
  cases writable : t.handle.isWritable with
  | false =>
    have refused : writeSome bytes t = (.error .notWritable, t) := by
      simp only [writeSome, bind_apply, getHandle_apply, writable, Bool.not_false, if_true]
      rfl
    rw [refused]
    exact .refused (.refl ⟨source, sink, channel⟩) rfl
  | true =>
    obtain ⟨opened, s, rfl⟩ : t.handle.closed = false ∧ ∃ s, sink = some s := by
      rw [Handle.isWritable, channel] at writable
      obtain ⟨opened, some⟩ := Bool.and_eq_true_iff.mp writable
      exact ⟨(Bool.not_eq_true' _).mp opened, Option.isSome_iff_exists.mp some⟩
    have before : t.handle.accepted = s.accepted := by rw [Handle.accepted, channel]
    rw [writeSome_stream channel opened]
    have writes := s.write_writes bytes
    generalize s.write bytes = result at writes
    cases writes with
    | accepted some most more => exact .sent some most ⟨source, _, rfl⟩ (by rw [before]; exact more) rfl rfl
    | refused same =>
      refine .refused ⟨⟨source, _, rfl⟩, ?_, rfl⟩ rfl
      rw [Handle.written, Handle.written, before, ← same]
      rfl

theorem writeSome_disk {t : Transfer} {d : Descriptor} (channel : t.handle.channel = .disk d) (bytes : Bytes) :
    writeSome bytes t =
      if t.handle.isWritable then
        if bytes.isEmpty then (.error .acceptedNothing, t)
        else
          (.ok bytes.length,
            { t with
              handle := { t.handle with channel := .disk (d.write t.disk bytes).1 }
              disk := (d.write t.disk bytes).2 })
      else (.error .notWritable, t) := by
  cases writable : t.handle.isWritable with
  | false =>
    simp only [writeSome, bind_apply, getHandle_apply, writable, Bool.not_false, if_true]
    rfl
  | true =>
    simp only [writeSome, bind_apply, getHandle_apply, writable, channel, Bool.not_true, Bool.false_eq_true, if_false,
      if_true]
    cases bytes.isEmpty <;> rfl

theorem writeSome_ok {t after : Transfer} {bytes : Bytes} {n : Nat} (wrote : writeSome bytes t = (.ok n, after)) :
    0 < n ∧ after.handle.pending = t.handle.pending := by
  cases channel : t.handle.channel with
  | stream source sink =>
    have sends := writeSome_sends ⟨source, sink, channel⟩ bytes
    rw [wrote] at sends
    cases sends with
    | sent some _ _ _ pending _ => exact ⟨some, pending⟩
  | disk d =>
    rw [writeSome_disk channel] at wrote
    split at wrote
    · split at wrote
      · cases wrote
      · next some =>
        cases wrote
        exact ⟨List.length_pos_of_ne_nil (by simpa using some), rfl⟩
    · cases wrote

/-- To flush is to write the pending bytes, and what is left of them again, until none are left or
the device refuses. -/
theorem flushPending_induct {R : Transfer → Except DeviceError Unit × Transfer → Prop}
    (empty : ∀ t, t.handle.pending = [] → R t (.ok (), t))
    (refused : ∀ t after e, t.handle.pending ≠ [] → writeSome t.handle.pending t = (.error e, after) →
      R t (.error e, after))
    (sent : ∀ t after n result, t.handle.pending ≠ [] → writeSome t.handle.pending t = (.ok n, after) →
      R (after.withPending (t.handle.pending.drop n)) result → R t result)
    (t : Transfer) : R t (flushPending t) := by
  -- a call that is accepted takes at least one byte, so there are rounds enough for all of them
  have rounds (count : Nat) (t : Transfer) (enough : t.handle.pending.length ≤ count) : R t (flushRounds count t) := by
    induction count generalizing t with
    | zero => exact empty t (List.eq_nil_of_length_eq_zero (Nat.le_zero.mp enough))
    | succ count ih =>
      simp only [flushRounds, bind_apply, getHandle_apply]
      split
      · next none => exact empty t (List.isEmpty_iff.mp none)
      · next some =>
        have some : t.handle.pending ≠ [] := by simpa using some
        rw [bind_apply]
        rcases wrote : writeSome t.handle.pending t with ⟨e | n, after⟩
        · exact refused t after e some wrote
        · obtain ⟨positive, _⟩ := writeSome_ok wrote
          refine sent t after n _ some wrote (ih (after.withPending (t.handle.pending.drop n)) ?_)
          have length := List.length_pos_of_ne_nil some
          simp only [withPending, List.length_drop]
          omega
  exact rounds _ t (Nat.le_refl _)

/-- Flushing a stream keeps what was written, and leaves pending bytes only after a refusal. -/
inductive Flushes (t : Transfer) : Except DeviceError Unit × Transfer → Prop where
  | emptied {after : Transfer} (conveys : t.Conveys after) (none : after.handle.pending = []) : Flushes t (.ok (), after)
  | stopped {e : DeviceError} {after : Transfer} (conveys : t.Conveys after) (some : after.handle.pending ≠ []) :
      Flushes t (.error e, after)

theorem flushPending_flushes {t : Transfer} (stream : t.handle.IsStream) : t.Flushes (flushPending t) := by
  revert stream
  refine flushPending_induct (R := fun t result => t.handle.IsStream → t.Flushes result) ?_ ?_ ?_ t
  · intro t none stream
    exact .emptied (.refl stream) none
  · intro t after e some wrote stream
    have sends := writeSome_sends stream t.handle.pending
    rw [wrote] at sends
    cases sends with
    | refused conveys pending => exact .stopped conveys (pending ▸ some)
  · intro t after n result some wrote goes stream
    have sends := writeSome_sends stream t.handle.pending
    rw [wrote] at sends
    cases sends with
    | sent _ _ stream accepted pending taken =>
      have moved : t.Conveys (after.withPending (t.handle.pending.drop n)) := by
        refine ⟨stream, ?_, taken⟩
        change after.handle.accepted ++ t.handle.pending.drop n = _
        rw [accepted, List.append_assoc, List.take_append_drop]
        rfl
      cases goes stream with
      | emptied conveys none => exact .emptied (moved.trans conveys) none
      | stopped conveys some => exact .stopped (moved.trans conveys) some

/-- What flushes or closes a stream keeps what was written, and leaves nothing pending unless it is
stopped. -/
inductive Finishes (t : Transfer) : Except DeviceError Unit × Transfer → Prop where
  | done {after : Transfer} (conveys : t.Conveys after) (none : after.handle.pending = []) : Finishes t (.ok (), after)
  | stopped {e : DeviceError} {after : Transfer} (conveys : t.Conveys after) : Finishes t (.error e, after)

theorem flushSink_conveys {t : Transfer} {source : Option Source} {sink : Sink}
    (channel : t.handle.channel = .stream source (some sink)) :
    t.Conveys { t with handle := { t.handle with channel := .stream source (some sink.flush.2) } } := by
  refine ⟨⟨source, _, rfl⟩, ?_, rfl⟩
  rw [Handle.written, Handle.written, Handle.accepted, Handle.accepted, channel]
  exact congrArg (· ++ t.handle.pending) sink.flush_accepted

theorem flush_finishes {t : Transfer} (stream : t.handle.IsStream) : t.Finishes (flush t) := by
  have flushes := flushPending_flushes stream
  rw [flush, bind_apply]
  generalize flushPending t = result at flushes
  cases flushes with
  | stopped conveys _ => exact .stopped conveys
  | @emptied after conveys none =>
    obtain ⟨source, sink, channel⟩ := conveys.stream
    simp only [bind_apply, getHandle_apply]
    split
    · exact .done conveys none
    · cases sink with
      | none =>
        simp only [channel]
        exact .done conveys none
      | some sink =>
        have moved := conveys.trans (flushSink_conveys channel)
        simp only [channel, bind_apply, setChannel_apply]
        cases sink.flush.1 with
        | ok _ => exact .done moved none
        | error e => exact .stopped moved

theorem close_finishes {t : Transfer} (stream : t.handle.IsStream) : t.Finishes (close t) := by
  have finishes := flush_finishes stream
  rw [close, bind_apply]
  generalize flush t = result at finishes
  cases finishes with
  | done conveys none => exact .done ⟨conveys.stream, conveys.written, conveys.taken⟩ none
  | stopped conveys => exact .stopped conveys

namespace Conserves

theorem flushPending : Conserves flushPending := by
  intro t stream
  have flushes := flushPending_flushes stream
  generalize Transfer.flushPending t = result at flushes
  cases flushes with
  | emptied conveys _ | stopped conveys _ => exact conveys

theorem readChunk : Conserves readChunk := by
  intro t stream
  obtain ⟨source, sink, channel⟩ := stream
  have refl : t.Conveys t := .refl ⟨source, sink, channel⟩
  cases readable : t.handle.isReadable with
  | false =>
    have refused : Transfer.readChunk t = (.error .notReadable, t) := by
      simp only [Transfer.readChunk, bind_apply, getHandle_apply, readable, Bool.not_false, if_true]
      rfl
    rw [refused]
    exact refl
  | true =>
    simp only [Transfer.readChunk, bind_apply, getHandle_apply, readable, channel, Bool.not_true, Bool.false_eq_true,
      if_false]
    cases source with
    | none => exact refl
    | some source =>
      have moved : t.Conveys { t with handle := { t.handle with channel := .stream (some source.read.2) sink } } := by
        refine ⟨⟨_, sink, rfl⟩, ?_, rfl⟩
        rw [Handle.written, Handle.written, Handle.accepted, Handle.accepted, channel]
        cases sink <;> rfl
      simp only [bind_apply, setChannel_apply]
      cases source.read.1 <;> exact moved

theorem fill : Conserves fill :=
  flushPending.bind fun _ => readChunk.bind fun _ => .readHandle fun _ => (setAhead _).bind fun _ => .pure _

theorem takeCollected : Conserves takeCollected := .read fun _ => (setCollected _).bind fun _ => .pure _

theorem takeCollected? : Conserves takeCollected? := takeCollected.bind fun _ => .pure _

theorem collectAhead : Conserves collectAhead :=
  .read fun _ => .readHandle fun _ => (setCollected _).bind fun _ => setAhead _

theorem refill {α : Type} {finish loop : TransferM α} (finishes : Conserves finish) (loops : Conserves loop) :
    Conserves (do if (← Transfer.fill) = 0 then finish else loop) := by
  refine fill.bind fun n => ?_
  split
  · exact finishes
  · exact loops

theorem readLine (keepNewline : Bool) (rounds : Nat) : Conserves (readLine keepNewline rounds) := by
  induction rounds with
  | zero => exact takeCollected?
  | succ rounds ih =>
    refine .readHandle fun h => ?_
    simp only
    split
    · exact takeCollected.bind fun _ => (setAhead _).bind fun _ => .pure _
    · exact collectAhead.bind fun _ => refill takeCollected? ih

theorem readAll (rounds : Nat) : Conserves (readAll rounds) := by
  induction rounds with
  | zero => exact takeCollected
  | succ rounds ih => exact collectAhead.bind fun _ => refill takeCollected ih

theorem readBytes (n rounds : Nat) : Conserves (readBytes n rounds) := by
  induction rounds with
  | zero => exact takeCollected?
  | succ rounds ih =>
    refine .readHandle fun h => .read fun t => (setAhead _).bind fun _ => .read fun _ => ?_
    refine (setCollected _).bind fun _ => .read fun _ => ?_
    split
    · exact takeCollected.bind fun _ => .pure _
    · exact refill takeCollected? ih

theorem readNothing : Conserves readNothing := by
  refine .readHandle fun h => ?_
  split
  · exact fill.bind fun _ => .pure _
  · exact .pure _

theorem readNumber (rounds : Nat) : Conserves (readNumber rounds) := by
  induction rounds with
  | zero => exact takeCollected.bind fun _ => .pure _
  | succ rounds ih =>
    refine .read fun t => .readHandle fun h => (setCollected _).bind fun _ => (setAhead _).bind fun _ => ?_
    split
    · exact takeCollected.bind fun _ => .pure _
    · exact refill (takeCollected.bind fun _ => .pure _) ih

theorem readItem (format : ReadFormat) : Conserves (readItem format) := by
  refine .read fun t => ?_
  cases format with
  | line keepNewline => exact (readLine keepNewline _).bind fun _ => .pure _
  | all => exact (readAll _).bind fun _ => .pure _
  | number => exact readNumber _
  | count n =>
    simp only
    split
    · exact readNothing.bind fun _ => .pure _
    · exact (readBytes n _).bind fun _ => .pure _

theorem flush : Conserves flush := by
  intro t stream
  have finishes := flush_finishes stream
  generalize Transfer.flush t = result at finishes
  cases finishes with
  | done conveys _ | stopped conveys => exact conveys

theorem seek (target : Seek) : Conserves (seek target) := by
  refine flushPending.bind fun _ t stream => ?_
  obtain ⟨source, sink, channel⟩ := stream
  rw [bind_apply, getHandle_apply]
  simp only [channel]
  -- a stream has no position: whatever the target is, nothing is done
  let refuse : TransferM Nat := MonadExcept.throw .notSeekable
  have refused : Conserves (if t.handle.closed then do MonadExcept.throw .notSeekable; refuse else refuse) := by
    split
    · exact (Conserves.throw _).bind fun _ => .throw _
    · exact .throw _
  have stream : t.handle.IsStream := ⟨source, sink, channel⟩
  cases target with
  | current offset =>
    simp only
    split
    · exact (Conserves.throw _).bind (fun _ => refused) t stream
    · exact (Conserves.pure _).bind (fun _ => refused) t stream
  | start offset | fromEnd offset => exact (Conserves.pure _).bind (fun _ => refused) t stream

theorem setBuffering (buffering : Buffering) : Conserves (setBuffering buffering) :=
  flushPending.bind fun _ _ stream => ⟨stream, rfl, rfl⟩

theorem close : Conserves close := flush.bind fun _ _ stream => ⟨stream, rfl, rfl⟩

end Conserves

/-- More of the data is taken, and it follows what was written before. -/
structure Takes (data : Bytes) (t after : Transfer) : Prop where
  stream : after.handle.IsStream
  most : after.taken ≤ data.length
  more : ∃ added, data.take after.taken = data.take t.taken ++ added ∧ after.handle.written = t.handle.written ++ added

theorem Conveys.takes {data : Bytes} {t after : Transfer} (conveys : t.Conveys after) (most : t.taken ≤ data.length) :
    Takes data t after := by
  refine ⟨conveys.stream, conveys.taken ▸ most, [], ?_, ?_⟩
  · rw [conveys.taken, List.append_nil]
  · rw [conveys.written, List.append_nil]

theorem Takes.trans {data : Bytes} {t between after : Transfer} (first : Takes data t between)
    (rest : Takes data between after) : Takes data t after := by
  obtain ⟨some, taken, written⟩ := first.more
  obtain ⟨others, takes, writes⟩ := rest.more
  refine ⟨rest.stream, rest.most, some ++ others, ?_, ?_⟩
  · rw [takes, taken, List.append_assoc]
  · rw [writes, written, List.append_assoc]

/-- A write takes all of the data, or it is stopped and has taken some. -/
inductive Wrote (data : Bytes) (t : Transfer) : Except DeviceError Unit × Transfer → Prop where
  | done {after : Transfer} (takes : Takes data t after) (all : after.taken = data.length) : Wrote data t (.ok (), after)
  | stopped {e : DeviceError} {after : Transfer} (takes : Takes data t after) : Wrote data t (.error e, after)

theorem Wrote.after {data : Bytes} {t between : Transfer} {result : Except DeviceError Unit × Transfer}
    (first : Takes data t between) (rest : Wrote data between result) : Wrote data t result := by
  cases rest with
  | done takes all => exact .done (first.trans takes) all
  | stopped takes => exact .stopped (first.trans takes)

theorem writeThrough_wrote {data : Bytes} {rounds : Nat} {t : Transfer} (stream : t.handle.IsStream)
    (none : t.handle.pending = []) (most : t.taken ≤ data.length) (enough : data.length ≤ t.taken + rounds) :
    Wrote data t (writeThrough data rounds t) := by
  induction rounds generalizing t with
  | zero => exact .done ((Conveys.refl stream).takes most) (Nat.le_antisymm most enough)
  | succ rounds ih =>
    simp only [writeThrough, bind_apply, get_apply]
    split
    · next all => exact .done ((Conveys.refl stream).takes most) (Nat.le_antisymm most all)
    · next left =>
      rw [bind_apply]
      have sends := writeSome_sends stream (data.drop t.taken)
      generalize writeSome (data.drop t.taken) t = result at sends
      cases sends with
      | refused conveys pending => exact .stopped (conveys.takes most)
      | @sent n after some fits stream accepted pending taken =>
        rw [List.length_drop] at fits
        have moved : Takes data t { after with taken := t.taken + n } := by
          refine ⟨stream, by simp only; omega, (data.drop t.taken).take n, List.take_add, ?_⟩
          change after.handle.accepted ++ after.handle.pending = _
          rw [accepted, pending, Handle.written, none, List.append_nil, List.append_nil]
        exact .after moved (ih stream (pending.trans none) moved.most (by simp only; omega))

theorem giveBack_stream {t : Transfer} (stream : t.handle.IsStream) : giveBack t = (.ok (), t) := by
  obtain ⟨source, sink, channel⟩ := stream
  simp only [giveBack, bind_apply, getHandle_apply, channel]
  rfl

/-- The data that is not taken yet goes to the pending bytes. -/
def buffered (t : Transfer) (data : Bytes) : Transfer :=
  { t.withPending (t.handle.pending ++ data.drop t.taken) with taken := data.length }

/-- What a write does once the handle can take the data. -/
def put (data : Bytes) (t : Transfer) : Except DeviceError Unit × Transfer :=
  if t.handle.buffering = .no then (do flushPending; writeThrough data data.length : TransferM Unit) t
  else if t.handle.buffering.due (t.handle.pending ++ data.drop t.taken) then flushPending (t.buffered data)
  else (.ok (), t.buffered data)

theorem giveBack_disk {t : Transfer} {d : Descriptor} (channel : t.handle.channel = .disk d) : giveBack t =
    if t.handle.closed || t.handle.ahead.isEmpty then (.ok (), t)
    else
      match d.seek t.disk (.current (-(t.handle.ahead.length : Int))) with
      | .ok d => (.ok (), { t with handle := { t.handle with channel := .disk d, ahead := [] } })
      | .error e => (.error e, t) := by
  simp only [giveBack, bind_apply, getHandle_apply, channel]
  by_cases nothing : (t.handle.closed || t.handle.ahead.isEmpty) = true
  · have idle : (!t.handle.closed && !t.handle.ahead.isEmpty) = false := by
      rw [← Bool.not_or, nothing]
      rfl
    rw [if_pos nothing]
    simp only [idle]
    rfl
  · have busy : (!t.handle.closed && !t.handle.ahead.isEmpty) = true := by
      rw [← Bool.not_or, Bool.eq_false_iff.mpr nothing]
      rfl
    rw [if_neg nothing]
    simp only [busy, if_true, bind_apply, get_apply]
    cases d.seek t.disk (.current (-(t.handle.ahead.length : Int))) <;> rfl

theorem giveBack_buffering (t : Transfer) : (giveBack t).2.handle.buffering = t.handle.buffering := by
  cases channel : t.handle.channel with
  | stream source sink => rw [giveBack_stream ⟨source, sink, channel⟩]
  | disk d =>
    rw [giveBack_disk channel]
    split
    · rfl
    · split <;> rfl

private theorem take_apply (data : Bytes) (t : Transfer) : write.take data t = (.ok (), t.buffered data) := rfl

theorem write_apply (data : Bytes) (t : Transfer) : write data t =
    if t.handle.isWritable then
      match giveBack t with
      | (.ok (), t) => put data t
      | (.error e, t) => (.error e, t)
    else (.error .notWritable, t) := by
  have buffering := giveBack_buffering t
  cases writable : t.handle.isWritable with
  | false =>
    simp only [write, bind_apply, getHandle_apply, writable, Bool.not_false, if_true]
    rfl
  | true =>
    simp only [write, bind_apply, getHandle_apply, writable, Bool.not_true, Bool.false_eq_true, if_false, if_true]
    rw [← buffering]
    rcases giveBack t with ⟨_ | _, after⟩
    · rfl
    · simp only [put]
      cases after.handle.buffering with
      | no => rfl
      | full limit =>
        simp only [bind_apply, take_apply, getHandle_apply, reduceCtorEq, if_false, Buffering.due, decide_eq_true_eq]
        by_cases due : limit ≤ (after.buffered data).handle.pending.length
        · rw [if_pos due, if_pos (by exact due)]
        · rw [if_neg due, if_neg (by exact due)]
          rfl
      | line limit =>
        simp only [bind_apply, take_apply, getHandle_apply, reduceCtorEq, if_false]
        by_cases due : (Buffering.line limit).due (after.buffered data).handle.pending = true
        · rw [if_pos (by exact due), if_pos (by exact due)]
        · rw [if_neg (by exact due), if_neg (by exact due)]
          rfl

theorem put_wrote {data : Bytes} {t : Transfer} (stream : t.handle.IsStream) (most : t.taken ≤ data.length) :
    Wrote data t (put data t) := by
  have moved : Takes data t (t.buffered data) := by
    refine ⟨stream, Nat.le_refl _, data.drop t.taken, ?_, ?_⟩
    · exact List.take_length.trans (List.take_append_drop _ _).symm
    · exact (List.append_assoc _ _ _).symm
  unfold put
  split
  · rw [bind_apply]
    have flushes := flushPending_flushes stream
    generalize flushPending t = result at flushes
    cases flushes with
    | stopped conveys _ => exact .stopped (conveys.takes most)
    | emptied conveys none =>
      have takes := conveys.takes most
      exact .after takes (writeThrough_wrote conveys.stream none takes.most (Nat.le_add_left _ _))
  · split
    · have flushes := flushPending_flushes (t := t.buffered data) stream
      generalize flushPending (t.buffered data) = result at flushes
      cases flushes with
      | stopped conveys _ => exact .stopped (moved.trans (conveys.takes moved.most))
      | emptied conveys none => exact .done (moved.trans (conveys.takes moved.most)) conveys.taken
    · exact .done moved rfl

theorem write_wrote {data : Bytes} {t : Transfer} (stream : t.handle.IsStream) (most : t.taken ≤ data.length) :
    Wrote data t (write data t) := by
  rw [write_apply]
  split
  · rw [giveBack_stream stream]
    exact put_wrote stream most
  · exact .stopped ((Conveys.refl stream).takes most)

end Transfer

end CoopScript
