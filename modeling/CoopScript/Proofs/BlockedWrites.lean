import CoopScript.Proofs.HandleWrites

/-! Writes that are blocked. A write that a sink blocks is resumed with what is left, and all its
data arrives in order. But a buffer that was partly flushed is looked at anew: unless what is left
of it is still to be written, the write ends there, with pending bytes that a sink which accepts
everything at once would have received. -/

namespace CoopScript

/-- The call accepts some bytes, or none for now. -/
def Acceptance.Willing : Acceptance → Prop
  | .upTo count => 0 < count
  | .block => True
  | .interrupt | .fail _ => False

instance : DecidablePred Acceptance.Willing
  | .upTo count => inferInstanceAs (Decidable (0 < count))
  | .block => isTrue trivial
  | .interrupt | .fail _ => isFalse id

/-- An open stream whose sink accepts all there is, but blocks so many times. -/
structure Handle.Outlet (h : Handle) (sink : Sink) (blocks : Nat) : Prop where
  channel : ∃ source, h.channel = .stream source (some sink)
  opened : h.closed = false
  willing : ∀ call ∈ sink.writes, call.Willing
  count : sink.writes.count .block = blocks

/-- The handle with a sink that accepts everything at once. -/
def Handle.unblocked (h : Handle) : Handle :=
  match h.channel with
  | .stream source (some sink) => { h with channel := .stream source (some { sink with writes := [] }) }
  | _ => h

/-- A willing sink accepts some of the bytes, or blocks once. -/
inductive Sink.Obliges (s : Sink) : Except DeviceError Nat × Sink → Prop where
  | accepted {n : Nat} {after : Sink} (willing : ∀ call ∈ after.writes, call.Willing)
      (same : after.writes.count .block = s.writes.count .block) : Obliges s (.ok n, after)
  | blocked {after : Sink} (willing : ∀ call ∈ after.writes, call.Willing)
      (one : s.writes.count .block = after.writes.count .block + 1) : Obliges s (.error .wouldBlock, after)

theorem Sink.write_obliges {s : Sink} (willing : ∀ call ∈ s.writes, call.Willing) {bytes : Bytes} (some : bytes ≠ []) :
    s.Obliges (s.write bytes) := by
  have length := List.length_pos_of_ne_nil some
  obtain ⟨writes, flushes, accepted⟩ := s
  cases writes with
  | nil =>
    have accepts : accept bytes.length [] = (.ok bytes.length, []) := by simp [accept, some]
    simp only [write, accepts]
    exact .accepted willing rfl
  | cons call rest =>
    obtain ⟨first, others⟩ := List.forall_mem_cons.mp willing
    cases call with
    | upTo count =>
      have positive : 0 < count := first
      have accepts : accept bytes.length (.upTo count :: rest) = (.ok (min count bytes.length), rest) := by
        rw [accept, if_neg (by omega)]
      simp only [write, accepts]
      exact .accepted others (by simp)
    | block => exact .blocked others (by simp)
    | interrupt | fail _ => cases first

namespace Transfer

/-- An operation on an outlet is done, or a block stops it. -/
inductive Settles {α : Type} (t : Transfer) (blocks : Nat) : Except DeviceError α × Transfer → Prop where
  | done {a : α} {after : Transfer} {sink : Sink} (outlet : after.handle.Outlet sink blocks)
      (buffering : after.handle.buffering = t.handle.buffering) : Settles t blocks (.ok a, after)
  | blocked {after : Transfer} {sink : Sink} {fewer : Nat} (one : blocks = fewer + 1)
      (outlet : after.handle.Outlet sink fewer) (buffering : after.handle.buffering = t.handle.buffering) :
      Settles t blocks (.error .wouldBlock, after)

theorem Settles.after {α : Type} {t between : Transfer} {blocks : Nat} {result : Except DeviceError α × Transfer}
    (rest : between.Settles blocks result) (same : between.handle.buffering = t.handle.buffering) :
    t.Settles blocks result := by
  cases rest with
  | done outlet buffering => exact .done outlet (buffering.trans same)
  | blocked one outlet buffering => exact .blocked one outlet (buffering.trans same)

theorem writeSome_settles {t : Transfer} {sink : Sink} {blocks : Nat} (outlet : t.handle.Outlet sink blocks)
    {bytes : Bytes} (some : bytes ≠ []) : t.Settles blocks (writeSome bytes t) := by
  obtain ⟨⟨source, channel⟩, opened, willing, count⟩ := outlet
  have obliges := sink.write_obliges willing some
  rw [writeSome_stream channel opened]
  generalize sink.write bytes = result at obliges
  cases obliges with
  | accepted willing same => exact .done ⟨⟨source, rfl⟩, opened, willing, same.trans count⟩ rfl
  | blocked willing one => exact .blocked (count.symm.trans one) ⟨⟨source, rfl⟩, opened, willing, rfl⟩ rfl

theorem flushPending_settles {t : Transfer} {sink : Sink} {blocks : Nat} (outlet : t.handle.Outlet sink blocks) :
    t.Settles blocks (flushPending t) := by
  refine flushPending_induct (R := fun t result => ∀ sink, t.handle.Outlet sink blocks → t.Settles blocks result)
    ?_ ?_ ?_ t sink outlet
  · intro t none sink outlet
    exact .done outlet rfl
  · intro t after e some wrote sink outlet
    have settles := writeSome_settles outlet some
    rw [wrote] at settles
    cases settles with
    | blocked one outlet buffering => exact .blocked one outlet buffering
  · intro t after n result some wrote goes sink outlet
    have settles := writeSome_settles outlet some
    rw [wrote] at settles
    cases settles with
    | @done _ _ sink outlet buffering =>
      have next : (after.withPending (t.handle.pending.drop n)).handle.Outlet sink blocks :=
        ⟨outlet.channel, outlet.opened, outlet.willing, outlet.count⟩
      exact (goes sink next).after buffering

theorem writeThrough_settles {data : Bytes} {rounds : Nat} {t : Transfer} {sink : Sink} {blocks : Nat}
    (outlet : t.handle.Outlet sink blocks) : t.Settles blocks (writeThrough data rounds t) := by
  induction rounds generalizing t sink with
  | zero => exact .done outlet rfl
  | succ rounds ih =>
    simp only [writeThrough, bind_apply, get_apply]
    split
    · exact .done outlet rfl
    · next left =>
      rw [bind_apply]
      have some : data.drop t.taken ≠ [] := by simpa using left
      have settles := writeSome_settles outlet some
      generalize writeSome (data.drop t.taken) t = result at settles
      cases settles with
      | blocked one outlet buffering => exact .blocked one outlet buffering
      | @done n after _ outlet buffering =>
        have next : Handle.Outlet ({ after with taken := t.taken + n } : Transfer).handle _ blocks := outlet
        exact (ih next).after buffering

theorem put_settles {data : Bytes} {t : Transfer} {sink : Sink} {blocks : Nat} (outlet : t.handle.Outlet sink blocks) :
    t.Settles blocks (put data t) := by
  have buffered : (t.buffered data).handle.Outlet sink blocks :=
    ⟨outlet.channel, outlet.opened, outlet.willing, outlet.count⟩
  unfold put
  split
  · rw [bind_apply]
    have settles := flushPending_settles outlet
    generalize flushPending t = result at settles
    cases settles with
    | blocked one outlet buffering => exact .blocked one outlet buffering
    | done outlet buffering => exact (writeThrough_settles outlet).after buffering
  · split
    · exact (flushPending_settles buffered).after rfl
    · exact .done buffered rfl

theorem writeThrough_pending (data : Bytes) (rounds : Nat) {t : Transfer} (stream : t.handle.IsStream) :
    (writeThrough data rounds t).2.handle.pending = t.handle.pending := by
  induction rounds generalizing t with
  | zero => rfl
  | succ rounds ih =>
    simp only [writeThrough, bind_apply, get_apply]
    split
    · rfl
    · rw [bind_apply]
      have sends := writeSome_sends stream (data.drop t.taken)
      generalize writeSome (data.drop t.taken) t = result at sends
      cases sends with
      | refused conveys pending => exact pending
      | @sent n after some most stream accepted pending taken =>
        have next : ({ after with taken := t.taken + n } : Transfer).handle.IsStream := stream
        exact (ih next).trans pending

/-- Where the pending bytes are not to be written, the data joins them; otherwise they are written, and
what a refusal leaves of them is there when the write goes on. -/
inductive Puts (data : Bytes) (t : Transfer) : Except DeviceError Unit × Transfer → Prop where
  | kept (early : t.handle.buffering.due (t.handle.pending ++ data.drop t.taken) = false) :
      Puts data t (.ok (), t.buffered data)
  | flushed {after : Transfer} (due : t.handle.buffering.due (t.handle.pending ++ data.drop t.taken) = true)
      (none : after.handle.pending = []) : Puts data t (.ok (), after)
  | stopped {e : DeviceError} {after : Transfer}
      (due : t.handle.buffering.due (t.handle.pending ++ data.drop t.taken) = true)
      (left : t.handle.buffering = .no ∨ after.handle.pending ≠ [] ∧ after.taken = data.length) :
      Puts data t (.error e, after)

theorem put_puts {data : Bytes} {t : Transfer} (stream : t.handle.IsStream) : Puts data t (put data t) := by
  unfold put
  split
  · next unbuffered =>
    have due : t.handle.buffering.due (t.handle.pending ++ data.drop t.taken) = true := by
      rw [unbuffered]
      rfl
    rw [bind_apply]
    have flushes := flushPending_flushes stream
    generalize flushPending t = result at flushes
    cases flushes with
    | stopped => exact .stopped due (.inl unbuffered)
    | @emptied after conveys none =>
      have pending := writeThrough_pending data data.length conveys.stream
      simp only
      generalize writeThrough data data.length after = result at pending
      obtain ⟨_ | _, last⟩ := result
      · exact .stopped due (.inl unbuffered)
      · exact .flushed due (pending.trans none)
  · split
    · next due =>
      have flushes := flushPending_flushes (t := t.buffered data) stream
      generalize flushPending (t.buffered data) = result at flushes
      cases flushes with
      | stopped conveys some => exact .stopped due (.inr ⟨some, conveys.taken⟩)
      | emptied conveys none => exact .flushed due none
    · next early => exact .kept (Bool.eq_false_iff.mpr early)

end Transfer

/-- A write from one attempt to the last, with the handle as each block leaves it. -/
inductive Files.Writes : World → Writing → List Handle → World → Prop where
  | done {w v : World} {writing : Writing} (ran : writeOn writing w = (.ok (.ret [.userdata writing.file]), v)) :
      Writes w writing [] v
  | blocked {w v last : World} {writing next : Writing} {h : Handle} {later : List Handle}
      (ran : writeOn writing w = (.ok (.suspend .blocked (.writing next)), v)) (left : v.file? writing.file = some h)
      (rest : Writes v next later last) : Writes w writing (h :: later) last

theorem Transfer.Takes.drop {data : Bytes} {t after : Transfer} (takes : Takes data t after) :
    after.handle.written ++ data.drop after.taken = t.handle.written ++ data.drop t.taken := by
  obtain ⟨added, taken, written⟩ := takes.more
  have whole : data.take t.taken ++ (added ++ data.drop after.taken) = data.take t.taken ++ data.drop t.taken := by
    rw [← List.append_assoc, ← taken, List.take_append_drop, List.take_append_drop]
  rw [written, List.append_assoc, List.append_cancel_left whole]

namespace Files

open Transfer

/-- How a write ends that is blocked so many times: all of the data is written, and whether anything
is still pending depends on where the blocks have left the buffer. -/
structure Ends (h : Handle) (data : Bytes) (taken blocks : Nat) (suspended : List Handle) (final : Handle) : Prop where
  written : final.written = h.written ++ data.drop taken
  blocked : suspended.length ≤ blocks
  early : h.buffering.due (h.pending ++ data.drop taken) = false →
    final.pending = h.pending ++ data.drop taken ∧ suspended = []
  due : h.buffering.due (h.pending ++ data.drop taken) = true →
    (final.pending = [] ↔ ∀ left ∈ suspended, h.buffering.due left.pending = true)

theorem writeOn_put {w : World} {u : UserdataId} {h : Handle} {taken : Nat} {t : Transfer} (found : w.file? u = some h)
    (begins : t = { handle := h, disk := w.disk, taken }) (writable : h.isWritable = true) (stream : h.IsStream)
    (data : Bytes) : writeOn ⟨u, data, taken⟩ w =
      match put data t with
      | (.ok (), t) => (.ok (.ret [.userdata u]), w.stored u t)
      | (.error .wouldBlock, t) => (.ok (.suspend .blocked (.writing ⟨u, data, t.taken⟩)), w.stored u t)
      | (.error e, t) => (.error (deviceFailure e), w.stored u t) := by
  rw [writeOn_apply found, write_apply, if_pos writable, giveBack_stream stream, begins]
  rfl

private theorem Ends.of_done {data : Bytes} {t after : Transfer} {blocks : Nat} (wrote : Wrote data t (.ok (), after))
    (puts : Puts data t (.ok (), after)) : Ends t.handle data t.taken blocks [] after.handle := by
  cases wrote with
  | done takes all =>
    have written := takes.drop
    rw [all, List.drop_length, List.append_nil] at written
    refine ⟨written, Nat.zero_le _, ?_, ?_⟩
    · intro early
      cases puts with
      | kept => exact ⟨rfl, rfl⟩
      | flushed due => cases early.symm.trans due
    · intro due
      cases puts with
      | kept early => cases early.symm.trans due
      | flushed _ none => simp [none]

/-- What is left after a block is written later on. If the data has been put into the buffer by then,
it depends on what is left there whether it is. -/
private theorem Ends.of_blocked {data : Bytes} {t after : Transfer} {fewer : Nat} {later : List Handle} {final : Handle}
    (wrote : Wrote data t (.error .wouldBlock, after)) (puts : Puts data t (.error .wouldBlock, after))
    (buffering : after.handle.buffering = t.handle.buffering) (ends : Ends after.handle data after.taken fewer later final) :
    Ends t.handle data t.taken (fewer + 1) (after.handle :: later) final := by
  cases wrote with
  | stopped takes =>
    cases puts with
    | stopped due left =>
      refine ⟨?_, ?_, ?_, ?_⟩
      · rw [ends.written]
        exact takes.drop
      · exact Nat.succ_le_succ ends.blocked
      · intro early
        cases early.symm.trans due
      · intro _
        rw [← buffering]
        have emptied := ends.due
        have kept := ends.early
        rcases left with unbuffered | ⟨some, all⟩
        · have always (bytes : Bytes) : after.handle.buffering.due bytes = true := by
            rw [buffering, unbuffered]
            rfl
          simpa [always] using emptied (always _)
        · rw [all, List.drop_length, List.append_nil] at emptied kept
          cases again : after.handle.buffering.due after.handle.pending with
          | true => simpa [again] using emptied again
          | false => simp [again, (kept again).1, some]

theorem writes_end {w : World} {u : UserdataId} {h : Handle} {sink : Sink} {blocks : Nat} {data : Bytes} {taken : Nat}
    (found : w.file? u = some h) (outlet : h.Outlet sink blocks) (most : taken ≤ data.length) :
    ∃ suspended last final, Writes w ⟨u, data, taken⟩ suspended last ∧ last.file? u = some final ∧
      Ends h data taken blocks suspended final := by
  -- on the blocks to come: each suspension uses up one, and the next attempt starts from what it left
  induction blocks using Nat.strong_induction_on generalizing w h sink taken with
  | _ blocks ih =>
    let t : Transfer := { handle := h, disk := w.disk, taken }
    obtain ⟨source, channel⟩ := outlet.channel
    have stream : t.handle.IsStream := ⟨source, some sink, channel⟩
    have writable : t.handle.isWritable = true := by simp [t, Handle.isWritable, outlet.opened, channel]
    have wrote : Wrote data t (put data t) := put_wrote stream most
    have settles : t.Settles blocks (put data t) := put_settles outlet
    have puts : Puts data t (put data t) := put_puts stream
    have ran := writeOn_put (t := t) found rfl writable stream data
    generalize put data t = result at wrote settles puts ran
    cases settles with
    | @done _ after =>
      exact ⟨[], _, after.handle, .done ran, World.stored_file? found after, .of_done wrote puts⟩
    | @blocked after _ fewer one outlet buffering =>
      have stored := World.stored_file? found after
      have most : after.taken ≤ data.length := by
        cases wrote with
        | stopped takes => exact takes.most
      obtain ⟨later, last, final, writes, there, ends⟩ := ih fewer (by omega) stored outlet most
      refine ⟨after.handle :: later, last, final, .blocked ran stored writes, there, ?_⟩
      rw [one]
      exact .of_blocked wrote puts buffering ends

/-- A blocked write ends like one on a sink that accepts everything at once exactly if each time it
is suspended what is left of the buffer is still to be written. -/
theorem write_ends_alike_iff {w : World} {u : UserdataId} {h : Handle} {source : Option Source} {sink : Sink}
    (found : w.file? u = some h) (channel : h.channel = .stream source (some sink)) (opened : h.closed = false)
    (willing : ∀ call ∈ sink.writes, call.Willing) (data : Bytes) : ∃ suspended last final unblocked reference,
      Writes w ⟨u, data, 0⟩ suspended last ∧ last.file? u = some final ∧
      Writes (w.setFile u h.unblocked) ⟨u, data, 0⟩ [] unblocked ∧ unblocked.file? u = some reference ∧
      (final.accepted = reference.accepted ∧ final.pending = reference.pending ↔
        ∀ left ∈ suspended, h.buffering.due left.pending = true) := by
  obtain ⟨suspended, last, final, writes, there, ends⟩ :=
    writes_end found ⟨⟨source, channel⟩, opened, willing, rfl⟩ (Nat.zero_le data.length)
  have handle : h.unblocked = { h with channel := .stream source (some { sink with writes := [] }) } := by
    rw [Handle.unblocked, channel]
  have outlet : h.unblocked.Outlet { sink with writes := [] } 0 := by
    rw [handle]
    exact ⟨⟨source, rfl⟩, opened, by simp, by simp⟩
  have start : (w.setFile u h.unblocked).file? u = some h.unblocked :=
    World.stored_file? found { handle := h.unblocked, disk := w.disk }
  obtain ⟨none, unblocked, reference, eager, reached, finishes⟩ := writes_end start outlet (Nat.zero_le data.length)
  obtain rfl := List.eq_nil_of_length_eq_zero (Nat.le_zero.mp finishes.blocked)
  refine ⟨suspended, last, final, unblocked, reference, writes, there, eager, reached, ?_⟩
  have pending : h.unblocked.pending = h.pending := by rw [handle]
  have buffering : h.unblocked.buffering = h.buffering := by rw [handle]
  have written : final.written = reference.written := by
    have accepted : h.unblocked.accepted = h.accepted := by rw [handle, Handle.accepted, Handle.accepted, channel]
    rw [ends.written, finishes.written, Handle.written, Handle.written, pending, accepted]
  have sameAccepted (same : final.pending = reference.pending) : final.accepted = reference.accepted := by
    rw [Handle.written, Handle.written, same] at written
    exact List.append_cancel_right written
  have early := finishes.early
  have due := finishes.due
  rw [pending, buffering] at early due
  cases isDue : h.buffering.due (h.pending ++ data.drop 0) with
  | false =>
    have same : final.pending = reference.pending := (ends.early isDue).1.trans (early isDue).1.symm
    simp [(ends.early isDue).2, same, sameAccepted same]
  | true =>
    have emptied : reference.pending = [] := (due isDue).mpr (by simp)
    rw [← ends.due isDue, ← emptied]
    exact ⟨And.right, fun same => ⟨sameAccepted same, same⟩⟩

private def lineBuffered (writes : List Acceptance) : Handle :=
  { channel := .stream none (some { writes }), buffering := .line 64, standard := true }

private def printing (h : Handle) : World := { objects := #[⟨.file h, none⟩] }

/-- A block within a line leaves its end to be written, so the write goes on as if there were none. -/
theorem write_ends_alike_iff_midline : ∃ suspended last final unblocked reference,
    Writes (printing (lineBuffered [.upTo 2, .block])) ⟨⟨0⟩, [97, 98, 99, 10, 100], 0⟩ suspended last ∧
    last.file? ⟨0⟩ = some final ∧
    Writes (printing (lineBuffered [])) ⟨⟨0⟩, [97, 98, 99, 10, 100], 0⟩ [] unblocked ∧
    unblocked.file? ⟨0⟩ = some reference ∧
    (final.accepted = reference.accepted ∧ final.pending = reference.pending ↔
      ∀ left ∈ suspended, (Buffering.line 64).due left.pending = true) := by
  have willing : ∀ call ∈ [Acceptance.upTo 2, .block], call.Willing := by decide
  exact write_ends_alike_iff (w := printing (lineBuffered [.upTo 2, .block])) (h := lineBuffered [.upTo 2, .block])
    rfl rfl rfl willing _

/-- A block right after the end of a line leaves nothing that is to be written, and the byte after it
stays pending. -/
theorem write_ends_apart : ∃ left last final unblocked reference,
    Writes (printing (lineBuffered [.upTo 4, .block])) ⟨⟨0⟩, [97, 98, 99, 10, 100], 0⟩ [left] last ∧
    last.file? ⟨0⟩ = some final ∧ final.accepted = [97, 98, 99, 10] ∧ final.pending = [100] ∧
    Writes (printing (lineBuffered [])) ⟨⟨0⟩, [97, 98, 99, 10, 100], 0⟩ [] unblocked ∧
    unblocked.file? ⟨0⟩ = some reference ∧ reference.accepted = [97, 98, 99, 10, 100] ∧ reference.pending = [] := by
  refine ⟨_, _, _, _, _, .blocked rfl rfl (.done rfl), rfl, ?_, ?_, .done rfl, rfl, ?_, ?_⟩
  all_goals rfl

end Files

end CoopScript
