import CoopScript.Proofs.HandleWrites

/-! Files without buffers. Such a file is its bytes and one cursor. A handle on the disk stands for
one, with what it has read ahead not yet read and what is pending already written, and each of its
operations does to that file what the operation asks for. -/

namespace CoopScript

namespace Disk

variable {name : String} {bytes : Bytes}

private theorem lookup_replaced {files : List (String × Bytes)} (there : files.any (·.1 == name) = true) :
    (files.map fun (n, old) => (n, if n == name then bytes else old)).lookup name = some bytes := by
  induction files with
  | nil => cases there
  | cons file files ih =>
    obtain ⟨n, old⟩ := file
    by_cases same : n = name
    · simp [same]
    · have other : (name == n) = false := beq_eq_false_iff_ne.mpr (Ne.symm same)
      simp only [List.any_cons, same, beq_iff_eq, Bool.or_eq_true, false_or] at there
      simp only [List.map_cons, List.lookup_cons, other]
      exact ih there

private theorem lookup_added {files : List (String × Bytes)} (absent : files.any (·.1 == name) = false) :
    (files ++ [(name, bytes)]).lookup name = some bytes := by
  induction files with
  | nil => simp
  | cons file files ih =>
    obtain ⟨n, old⟩ := file
    obtain ⟨other, absent⟩ : n ≠ name ∧ files.any (·.1 == name) = false := by simpa using absent
    have other : (name == n) = false := beq_eq_false_iff_ne.mpr (Ne.symm other)
    simp only [List.cons_append, List.lookup_cons, other]
    exact ih absent

theorem contents_put (disk : Disk) (name : String) (bytes : Bytes) : (disk.put name bytes).contents name = bytes := by
  unfold put contents find?
  split
  · next there =>
    rw [lookup_replaced there]
    rfl
  · next absent =>
    rw [lookup_added (Bool.eq_false_iff.mpr absent)]
    rfl

end Disk

section Overwriting

variable (contents first rest : Bytes) (offset : Nat)

theorem length_overwrite : (overwrite contents offset first).length = max contents.length (offset + first.length) := by
  simp only [overwrite, List.length_append, List.length_take, List.length_replicate, List.length_drop]
  omega

theorem drop_overwrite : (overwrite contents offset first).drop (offset + first.length) =
    contents.drop (offset + first.length) := by
  have front : (contents.take offset ++ List.replicate (offset - contents.length) 0 ++ first).length =
      offset + first.length := by
    simp only [List.length_append, List.length_take, List.length_replicate]
    omega
  rw [overwrite, ← front, List.drop_left]

theorem overwrite_overwrite : overwrite (overwrite contents offset first) (offset + first.length) rest =
    overwrite contents offset (first ++ rest) := by
  have front : (contents.take offset ++ List.replicate (offset - contents.length) 0 ++ first).length =
      offset + first.length := by
    simp only [List.length_append, List.length_take, List.length_replicate]
    omega
  have kept : (overwrite contents offset first).take (offset + first.length) =
      contents.take offset ++ List.replicate (offset - contents.length) 0 ++ first := by
    rw [overwrite, ← front, List.take_left]
  have dropped : (overwrite contents offset first).drop (offset + first.length + rest.length) =
      contents.drop (offset + (first ++ rest).length) := by
    rw [← List.drop_drop, drop_overwrite, List.drop_drop, List.length_append, Nat.add_assoc]
  have gap : offset + first.length - (overwrite contents offset first).length = 0 := by
    rw [length_overwrite]
    omega
  rw [overwrite, kept, dropped, gap, overwrite]
  simp only [List.replicate_zero, List.append_nil, List.append_assoc]

end Overwriting

structure PlainFile where
  bytes : Bytes
  cursor : Nat := 0
  readable : Bool
  writable : Bool
  append : Bool

namespace PlainFile

/-- The bytes from the cursor on. -/
def rest (file : PlainFile) : Bytes := file.bytes.drop file.cursor

/-- The file when it has been read up to its last bytes. -/
def leaving (file : PlainFile) (left : Bytes) : PlainFile :=
  { file with cursor := file.cursor + (file.rest.length - left.length) }

/-- Where a write goes: to the cursor, or always to the end. -/
def offset (file : PlainFile) : Nat := if file.append then file.bytes.length else file.cursor

/-- The file after a write; one of no bytes does nothing. -/
def written (file : PlainFile) (data : Bytes) : PlainFile :=
  if data.isEmpty then file
  else { file with bytes := overwrite file.bytes file.offset data, cursor := file.offset + data.length }

def position (file : PlainFile) : Seek → Int
  | .start offset => offset
  | .current offset => file.cursor + offset
  | .fromEnd offset => file.bytes.length + offset

/-- The last position that there is in files. -/
def lastPosition : Int := Int64.maxValue.toInt

/-- No file is longer than positions go. -/
def Fits (file : PlainFile) : Prop := (file.bytes.length : Int) ≤ lastPosition

/-- Where a seek leads, if there is such a position. -/
def sought (file : PlainFile) (target : Seek) : Option Nat :=
  if 0 ≤ file.position target ∧ file.position target ≤ lastPosition then some (file.position target).toNat else none

theorem written_nil (file : PlainFile) : file.written [] = file := rfl

theorem written_of_ne {file : PlainFile} {data : Bytes} (some : data ≠ []) : file.written data =
    { file with bytes := overwrite file.bytes file.offset data, cursor := file.offset + data.length } := by
  simp [written, some]

theorem written_readable (file : PlainFile) (data : Bytes) : (file.written data).readable = file.readable := by
  unfold written
  split <;> rfl

theorem written_writable (file : PlainFile) (data : Bytes) : (file.written data).writable = file.writable := by
  unfold written
  split <;> rfl

theorem written_append (file : PlainFile) (first more : Bytes) :
    (file.written first).written more = file.written (first ++ more) := by
  by_cases none : first = []
  · rw [none, written_nil, List.nil_append]
  by_cases nothing : more = []
  · rw [nothing, written_nil, List.append_nil]
  have length := length_overwrite file.bytes first file.bytes.length
  have after : (file.written first).offset = file.offset + first.length := by
    rw [written_of_ne none]
    unfold offset
    cases file.append with
    | true =>
      simp only [if_true, length]
      omega
    | false => rfl
  rw [written_of_ne nothing, after, written_of_ne none, written_of_ne (by simp [none])]
  simp only [overwrite_overwrite, List.length_append, Nat.add_assoc]

theorem leaving_rest_self (file : PlainFile) : file.leaving file.rest = file := by
  simp [leaving]

theorem rest_leaving {file : PlainFile} {left : Bytes} (last : left <:+ file.rest) : (file.leaving left).rest = left := by
  obtain ⟨front, same⟩ := last
  have taken : file.rest.length - left.length = front.length := by
    rw [← same, List.length_append, Nat.add_sub_cancel]
  change file.bytes.drop (file.cursor + (file.rest.length - left.length)) = left
  rw [taken, ← List.drop_drop]
  change file.rest.drop front.length = left
  rw [← same, List.drop_left]

end PlainFile

/-- The file that the descriptor is open on, when so much has been read ahead that it does not count. -/
structure Descriptor.StandsFor (d : Descriptor) (disk : Disk) (ahead : Bytes) (file : PlainFile) : Prop where
  bytes : disk.contents d.name = file.bytes
  readable : d.readable = file.readable
  writable : d.writable = file.writable
  append : d.append = file.append
  cursor : d.cursor = file.cursor + ahead.length
  rest : file.rest = ahead ++ file.bytes.drop d.cursor
  unread : file.readable = false → ahead = []
  within : (d.cursor : Int) ≤ max (file.bytes.length : Int) PlainFile.lastPosition

/-- The file that an open handle stands for: the one on the disk, with the pending bytes written. -/
inductive Handle.StandsFor (h : Handle) (disk : Disk) (name : String) (file : PlainFile) : Prop where
  | intro {d : Descriptor} {base : PlainFile} (channel : h.channel = .disk d) (named : d.name = name)
      (opened : h.closed = false) (ordinary : h.standard = false) (stands : d.StandsFor disk h.ahead base)
      (same : base.written h.pending = file) (apart : h.ahead = [] ∨ h.pending = [])
      (able : h.pending ≠ [] → base.writable = true)

namespace Descriptor

variable {d : Descriptor} {disk : Disk} {ahead data : Bytes} {file : PlainFile}

theorem StandsFor.write (stands : d.StandsFor disk [] file) (some : data ≠ []) :
    (d.write disk data).1.StandsFor (d.write disk data).2 [] (file.written data) := by
  have offset : (if d.append then (disk.contents d.name).length else d.cursor) = file.offset := by
    rw [stands.append, stands.bytes, stands.cursor]
    rfl
  rw [stands.bytes] at offset
  have same : d.write disk data = ({ d with cursor := file.offset + data.length },
      disk.put d.name (overwrite file.bytes file.offset data)) := by
    simp only [Descriptor.write, stands.bytes, offset]
  have length := length_overwrite file.bytes data file.offset
  rw [same, PlainFile.written_of_ne some]
  refine ⟨Disk.contents_put _ _ _, stands.readable, stands.writable, stands.append, rfl, rfl, fun _ => rfl, ?_⟩
  simp only [length]
  omega

theorem StandsFor.giveBack (stands : d.StandsFor disk ahead file) :
    ({ d with cursor := file.cursor } : Descriptor).StandsFor disk [] file := by
  refine ⟨stands.bytes, stands.readable, stands.writable, stands.append, rfl, rfl, fun _ => rfl, ?_⟩
  have within := stands.within
  have cursor := stands.cursor
  simp only
  omega

theorem StandsFor.read (stands : d.StandsFor disk ahead file) (readable : file.readable = true) :
    (d.read disk).1 = (file.bytes.drop d.cursor).take chunkSize ∧
      (d.read disk).2.StandsFor disk (ahead ++ (d.read disk).1) file := by
  have chunk : (d.read disk).1 = (file.bytes.drop d.cursor).take chunkSize := by rw [Descriptor.read, stands.bytes]
  have moved : (d.read disk).2 = { d with cursor := d.cursor + (d.read disk).1.length } := rfl
  refine ⟨chunk, ?_⟩
  rw [moved]
  generalize (d.read disk).1 = bytes at chunk
  have front : bytes ++ file.bytes.drop (d.cursor + bytes.length) = file.bytes.drop d.cursor := by
    have first : bytes <+: file.bytes.drop d.cursor := chunk ▸ List.take_prefix _ _
    rw [← List.drop_drop]
    exact List.prefix_iff_eq_append.mp first
  have cursor := stands.cursor
  have within := stands.within
  refine ⟨stands.bytes, stands.readable, stands.writable, stands.append, ?_, ?_, ?_, ?_⟩
  · simp only [List.length_append]
    omega
  · rw [stands.rest, List.append_assoc, front]
  · simp [readable]
  · have length := congrArg List.length front
    simp only [List.length_append, List.length_drop] at length
    simp only
    omega

end Descriptor

namespace Transfer

variable {t : Transfer} {d : Descriptor} {name : String} {file : PlainFile}

/-- All pending bytes have been written to the file. -/
def flushed (t : Transfer) (d : Descriptor) : Transfer :=
  if t.handle.pending.isEmpty then t
  else
    { t with
      handle := { t.handle with channel := .disk (d.write t.disk t.handle.pending).1, pending := [] }
      disk := (d.write t.disk t.handle.pending).2 }

theorem flushPending_disk (channel : t.handle.channel = .disk d)
    (able : t.handle.pending ≠ [] → t.handle.isWritable = true) : flushPending t = (.ok (), t.flushed d) := by
  revert d
  refine flushPending_induct (R := fun t result => (t.handle.pending ≠ [] → t.handle.isWritable = true) →
    ∀ {d}, t.handle.channel = .disk d → result = (.ok (), t.flushed d)) ?_ ?_ ?_ t able
  · intro t none _ d _
    simp [flushed, none]
  · intro t after e some wrote able d channel
    rw [writeSome_disk channel, if_pos (able some), if_neg (by simpa using some)] at wrote
    cases wrote
  · intro t after n result some wrote goes able d channel
    rw [writeSome_disk channel, if_pos (able some), if_neg (by simpa using some)] at wrote
    cases wrote
    simp only [List.drop_length] at goes
    rw [goes (by simp [withPending]) rfl]
    simp [flushed, withPending, some]

/-- The handle has nothing pending, and what it is open on stands for the file. -/
structure Settled (t : Transfer) (name : String) (file : PlainFile) (d : Descriptor) : Prop where
  channel : t.handle.channel = .disk d
  named : d.name = name
  opened : t.handle.closed = false
  ordinary : t.handle.standard = false
  stands : d.StandsFor t.disk t.handle.ahead file
  pending : t.handle.pending = []

theorem Settled.standsFor (settled : t.Settled name file d) : t.handle.StandsFor t.disk name file := by
  refine .intro settled.channel settled.named settled.opened settled.ordinary settled.stands ?_ (.inr settled.pending) ?_
  · rw [settled.pending]
    rfl
  · exact fun some => absurd settled.pending some

/-- To flush settles the handle, and nothing that is read or written changes by it. -/
theorem flushPending_stands (stands : t.handle.StandsFor t.disk name file) :
    ∃ after d, flushPending t = (.ok (), after) ∧ after.Settled name file d ∧ after.handle.ahead = t.handle.ahead ∧
      after.collected = t.collected ∧ after.taken = t.taken := by
  obtain @⟨d, base, channel, named, opened, ordinary, stands, same, apart, able⟩ := stands
  have writable (some : t.handle.pending ≠ []) : t.handle.isWritable = true := by
    simp [Handle.isWritable, opened, channel, stands.writable, able some]
  have wrote := flushPending_disk channel writable
  refine ⟨t.flushed d, ?_⟩
  by_cases none : t.handle.pending = []
  · have idle : t.flushed d = t := by simp [flushed, none]
    rw [idle] at wrote ⊢
    rw [none] at same
    obtain rfl : base = file := same
    exact ⟨d, wrote, ⟨channel, named, opened, ordinary, stands, none⟩, rfl, rfl, rfl⟩
  · have busy : t.flushed d =
        { t with
          handle := { t.handle with channel := .disk (d.write t.disk t.handle.pending).1, pending := [] }
          disk := (d.write t.disk t.handle.pending).2 } := by simp [flushed, none]
    rw [busy] at wrote ⊢
    have ahead : t.handle.ahead = [] := apart.resolve_right none
    rw [ahead] at stands
    refine ⟨_, wrote, ⟨rfl, named, opened, ordinary, ?_, rfl⟩, rfl, rfl, rfl⟩
    simp only [ahead, ← same]
    exact stands.write none

theorem fill_of_flushed {after : Transfer} (flushed : flushPending t = (.ok (), after)) : fill t =
    match readChunk after with
    | (.ok bytes, t) => (.ok bytes.length, t.withAhead (t.handle.ahead ++ bytes))
    | (.error e, t) => (.error e, t) := by
  simp only [fill, bind_apply, flushed]
  rcases readChunk after with ⟨_ | _, _⟩ <;> rfl

theorem readChunk_disk (channel : t.handle.channel = .disk d) : readChunk t =
    if t.handle.isReadable then
      (.ok (d.read t.disk).1, { t with handle := { t.handle with channel := .disk (d.read t.disk).2 } })
    else (.error .notReadable, t) := by
  cases readable : t.handle.isReadable with
  | false =>
    simp only [readChunk, bind_apply, getHandle_apply, readable, Bool.not_false, if_true]
    rfl
  | true =>
    simp only [readChunk, bind_apply, getHandle_apply, readable, channel, Bool.not_true, Bool.false_eq_true, if_false,
      if_true]
    rfl

theorem fill_unreadable (stands : t.handle.StandsFor t.disk name file) (unreadable : file.readable = false) :
    ∃ after, fill t = (.error .notReadable, after) ∧ after.handle.StandsFor after.disk name file := by
  obtain ⟨after, d, flushed, settled, _⟩ := flushPending_stands stands
  have closed : after.handle.isReadable = false := by
    simp [Handle.isReadable, settled.channel, settled.stands.readable, unreadable]
  refine ⟨after, ?_, settled.standsFor⟩
  rw [fill_of_flushed flushed, readChunk_disk settled.channel, closed]
  rfl

private theorem bind_refused {α β : Type} {op : TransferM α} {e : DeviceError} {left : Transfer → Prop}
    (refused : ∃ after, op t = (.error e, after) ∧ left after) (next : α → TransferM β) :
    ∃ after, (op >>= next) t = (.error e, after) ∧ left after := by
  obtain ⟨after, failed, still⟩ := refused
  refine ⟨after, ?_, still⟩
  rw [bind_apply, failed]

theorem readItem_unreadable (stands : t.handle.StandsFor t.disk name file) (unreadable : file.readable = false)
    (fresh : t.collected = []) (format : ReadFormat) : ∃ after, readItem format t = (.error .notReadable, after) ∧
      after.handle.StandsFor after.disk name file := by
  have nothing : t.handle.ahead = [] := by
    obtain @⟨d, base, _, _, _, _, stands, same, _, _⟩ := stands
    apply stands.unread
    rw [← unreadable, ← same, PlainFile.written_readable]
  have idle : { t.handle with ahead := [] } = t.handle := by rw [← nothing]
  -- every item begins with a chunk, for there is nothing ahead
  have asks {α : Type} (next : Nat → TransferM α) {begun : Transfer} (handle : begun.handle = t.handle)
      (disk : begun.disk = t.disk) : ∃ after, (fill >>= next) begun = (.error .notReadable, after) ∧
        after.handle.StandsFor after.disk name file := by
    rw [← handle, ← disk] at stands
    exact bind_refused (fill_unreadable stands unreadable) next
  obtain ⟨chunks, rounds⟩ : ∃ chunks, t.chunksLeft = chunks + 1 := by
    obtain @⟨d, _, channel⟩ := stands
    exact ⟨(t.disk.contents d.name).length + 1, by simp only [chunksLeft, channel]⟩
  simp only [readItem, bind_apply, get_apply, rounds]
  cases format with
  | line keepNewline =>
    refine bind_refused ?_ _
    simp only [readLine, bind_apply, getHandle_apply, nothing]
    exact asks _ idle rfl
  | all =>
    refine bind_refused ?_ _
    rw [readAll, bind_apply, collectAhead_apply]
    exact asks _ idle rfl
  | number =>
    simp only [readNumber, bind_apply, get_apply, getHandle_apply, nothing, scanNumeral]
    exact asks _ idle rfl
  | count n =>
    by_cases none : n = 0
    · simp only [none, if_true]
      refine bind_refused ?_ _
      rw [readNothing, bind_apply, getHandle_apply]
      simp only [nothing, List.isEmpty_nil, if_true]
      exact asks _ rfl rfl
    · simp only [none, if_false]
      refine bind_refused ?_ _
      rw [Feed.readBytes_succ, fresh, nothing, if_neg (by simpa using none), List.drop_nil]
      exact asks _ idle rfl

theorem giveBack_stands (stands : t.handle.StandsFor t.disk name file) (fits : file.Fits) :
    ∃ after, giveBack t = (.ok (), after) ∧ after.handle.StandsFor after.disk name file ∧ after.handle.ahead = [] ∧
      after.taken = t.taken := by
  have whole := stands
  obtain @⟨d, base, channel, named, opened, ordinary, stands, same, apart, able⟩ := stands
  rw [giveBack_disk channel, opened, Bool.false_or]
  by_cases nothing : t.handle.ahead = []
  · refine ⟨t, ?_, whole, nothing, rfl⟩
    simp [nothing]
  · have none : t.handle.pending = [] := apart.resolve_left nothing
    rw [none] at same
    obtain rfl : base = file := same
    have cursor := stands.cursor
    have some := List.length_pos_of_ne_nil nothing
    -- what was read ahead is in the file, so there is room to seek back over it
    have within : base.cursor + t.handle.ahead.length ≤ base.bytes.length := by
      have length := congrArg List.length stands.rest
      simp only [PlainFile.rest, List.length_append, List.length_drop] at length
      omega
    have back : d.seek t.disk (.current (-(t.handle.ahead.length : Int))) = .ok { d with cursor := base.cursor } := by
      have position : (d.cursor : Int) + -(t.handle.ahead.length : Int) = base.cursor := by omega
      simp only [Descriptor.seek, position]
      rw [if_neg (by unfold PlainFile.Fits PlainFile.lastPosition at fits; omega)]
      rfl
    rw [if_neg (by simpa using nothing), back]
    exact ⟨_, rfl, .intro rfl named opened ordinary stands.giveBack (by simp only [none]; rfl) (.inl rfl)
      (fun some => absurd none some), rfl, rfl⟩

theorem writeThrough_of_taken {data : Bytes} (all : data.length ≤ t.taken) (rounds : Nat) :
    writeThrough data rounds t = (.ok (), t) := by
  cases rounds with
  | zero => rfl
  | succ rounds =>
    simp only [writeThrough, bind_apply, get_apply, all, if_true]
    rfl

theorem writeThrough_stands (settled : t.Settled name file d) (nothing : t.handle.ahead = [])
    (writable : file.writable = true) (fresh : t.taken = 0) (data : Bytes) :
    ∃ after, writeThrough data data.length t = (.ok (), after) ∧
      after.handle.StandsFor after.disk name (file.written data) := by
  by_cases none : data = []
  · rw [none]
    exact ⟨t, rfl, settled.standsFor⟩
  · have able : t.handle.isWritable = true := by
      simp [Handle.isWritable, settled.opened, settled.channel, settled.stands.writable, writable]
    have stands := settled.stands
    rw [nothing] at stands
    have wrote := writeSome_disk settled.channel data
    rw [if_pos able, if_neg (by simpa using none)] at wrote
    obtain ⟨rounds, length⟩ := Nat.exists_eq_succ_of_ne_zero (List.length_pos_of_ne_nil none).ne'
    have short : ¬data.length ≤ 0 := Nat.not_le.mpr (List.length_pos_of_ne_nil none)
    rw [length, writeThrough, bind_apply, get_apply]
    simp only [fresh, short, if_false, List.drop_zero, bind_apply, wrote]
    refine ⟨_, writeThrough_of_taken (Nat.le_add_left _ _) _, ?_⟩
    have wrote := stands.write none
    rw [← nothing] at wrote
    refine .intro rfl settled.named settled.opened settled.ordinary wrote ?_ (.inr settled.pending) ?_
    · rw [settled.pending]
      rfl
    · exact fun some => absurd settled.pending some

theorem write_stands (stands : t.handle.StandsFor t.disk name file) (fits : file.Fits)
    (writable : file.writable = true) (fresh : t.taken = 0) (data : Bytes) :
    ∃ after, write data t = (.ok (), after) ∧ after.handle.StandsFor after.disk name (file.written data) := by
  have able : t.handle.isWritable = true := by
    obtain @⟨d, base, channel, named, opened, ordinary, stands, same, apart, able⟩ := stands
    rw [← same, PlainFile.written_writable] at writable
    simp [Handle.isWritable, opened, channel, stands.writable, writable]
  obtain ⟨back, given, stands, nothing, taken⟩ := giveBack_stands stands fits
  rw [write_apply, if_pos able, given]
  simp only
  unfold put
  split
  · -- without buffering what is pending goes first, and then the data
    obtain ⟨after, d, flushed, settled, ahead, _, same⟩ := flushPending_stands stands
    rw [bind_apply, flushed]
    exact writeThrough_stands settled (ahead.trans nothing) writable (by rw [same, taken, fresh]) data
  · have buffered : (back.buffered data).handle.StandsFor (back.buffered data).disk name (file.written data) := by
      obtain @⟨d, base, channel, named, opened, ordinary, stands, same, apart, able⟩ := stands
      refine .intro channel named opened ordinary stands ?_ (.inl nothing) ?_
      · change base.written (back.handle.pending ++ data.drop back.taken) = _
        rw [taken, fresh, List.drop_zero, ← PlainFile.written_append, same]
      · intro _
        rwa [← same, PlainFile.written_writable] at writable
    split
    · obtain ⟨after, d, flushed, settled, _⟩ := flushPending_stands buffered
      exact ⟨after, flushed, settled.standsFor⟩
    · exact ⟨_, rfl, buffered⟩

theorem write_refused (stands : t.handle.StandsFor t.disk name file) (unwritable : file.writable = false) (data : Bytes) :
    write data t = (.error .notWritable, t) := by
  have unable : t.handle.isWritable = false := by
    obtain @⟨d, base, channel, named, opened, ordinary, stands, same, apart, able⟩ := stands
    rw [← same, PlainFile.written_writable] at unwritable
    simp [Handle.isWritable, channel, stands.writable, unwritable]
  rw [write_apply, unable]
  rfl

theorem flush_stands (stands : t.handle.StandsFor t.disk name file) :
    ∃ after, flush t = (.ok (), after) ∧ after.handle.StandsFor after.disk name file ∧
      after.disk.contents name = file.bytes ∧ after.handle.pending = [] := by
  obtain ⟨after, d, flushed, settled, _⟩ := flushPending_stands stands
  refine ⟨after, ?_, settled.standsFor, ?_, settled.pending⟩
  · simp only [flush, bind_apply, flushed, getHandle_apply, settled.opened, settled.channel]
    rfl
  · rw [← settled.named]
    exact settled.stands.bytes

theorem setBuffering_stands (stands : t.handle.StandsFor t.disk name file) (buffering : Buffering) :
    ∃ after, setBuffering buffering t = (.ok (), after) ∧ after.handle.StandsFor after.disk name file ∧
      after.disk.contents name = file.bytes := by
  obtain ⟨after, d, flushed, settled, _⟩ := flushPending_stands stands
  refine ⟨{ after with handle := { after.handle with buffering } }, ?_, ?_, settled.named ▸ settled.stands.bytes⟩
  · rw [setBuffering, bind_apply, flushed]
    rfl
  · exact Settled.standsFor
      ⟨settled.channel, settled.named, settled.opened, settled.ordinary, settled.stands, settled.pending⟩

/-- What a seek comes to: the handle is where the file is then, or there is no such position. Either
way nothing is pending any more. -/
inductive Sought (name : String) (file : PlainFile) (target : Seek) : Except DeviceError Nat × Transfer → Prop where
  | moved {p : Nat} {after : Transfer} (found : file.sought target = some p)
      (stands : after.handle.StandsFor after.disk name { file with cursor := p })
      (disk : after.disk.contents name = file.bytes) : Sought name file target (.ok p, after)
  | refused {e : DeviceError} {after : Transfer} (none : file.sought target = none) (other : e ≠ .wouldBlock)
      (stands : after.handle.StandsFor after.disk name file) (disk : after.disk.contents name = file.bytes) :
      Sought name file target (.error e, after)

/-- Moves the descriptor of a handle, which drops what was read ahead. -/
def moveTo (t : Transfer) (d : Descriptor) (target : Seek) : Except DeviceError Nat × Transfer :=
  match d.seek t.disk target with
  | .ok d => (.ok d.cursor, { t with handle := { t.handle with channel := .disk d, ahead := [] } })
  | .error e => (.error e, t)

theorem seek_disk {after : Transfer} (flushed : flushPending t = (.ok (), after))
    (channel : after.handle.channel = .disk d) (opened : after.handle.closed = false) (target : Seek) : seek target t =
      match target with
      | .current offset =>
        if offset - after.handle.ahead.length < Int64.minValue.toInt then (.error .offsetOutOfRange, after)
        else after.moveTo d (.current (offset - after.handle.ahead.length))
      | target => after.moveTo d target := by
  have moves (actual : Seek) : (match d.seek after.disk actual with
      | .ok d => do
        setChannel (.disk d)
        setAhead []
        return d.cursor
      | .error e => throw e : TransferM Nat) after = after.moveTo d actual := by
    unfold moveTo
    cases d.seek after.disk actual <;> rfl
  simp only [seek, bind_apply, flushed, getHandle_apply]
  cases target with
  | start offset | fromEnd offset =>
    simp only [opened, channel, Bool.false_eq_true, if_false]
    exact moves _
  | current offset =>
    simp only
    split
    · rfl
    · simp only [opened, channel, Bool.false_eq_true, if_false]
      exact moves _

theorem Settled.moveTo (settled : t.Settled name file d) {target actual : Seek}
    (same : file.position target = ({ file with cursor := d.cursor } : PlainFile).position actual) :
    Sought name file target (t.moveTo d actual) := by
  have disk : t.disk.contents name = file.bytes := settled.named ▸ settled.stands.bytes
  have position : d.seek t.disk actual =
      if file.position target < 0 ∨ PlainFile.lastPosition < file.position target then .error .beforeStart
      else .ok { d with cursor := (file.position target).toNat } := by
    rw [same]
    cases actual with
    | start offset | current offset => rfl
    | fromEnd offset =>
      simp only [Descriptor.seek, settled.stands.bytes]
      rfl
  rw [Transfer.moveTo, position]
  by_cases outside : file.position target < 0 ∨ PlainFile.lastPosition < file.position target
  · rw [if_pos outside]
    exact .refused (if_neg (by omega)) (by simp) settled.standsFor disk
  · rw [if_neg outside]
    refine .moved (if_pos (by omega)) ?_ disk
    have stands := settled.stands
    refine Settled.standsFor ⟨rfl, settled.named, settled.opened, settled.ordinary, ?_, settled.pending⟩
    refine ⟨stands.bytes, stands.readable, stands.writable, stands.append, rfl, rfl, fun _ => rfl, ?_⟩
    simp only
    omega

theorem seek_sought (stands : t.handle.StandsFor t.disk name file) (fits : file.Fits) (target : Seek) :
    Sought name file target (seek target t) := by
  unfold PlainFile.Fits at fits
  obtain ⟨after, d, flushed, settled, _⟩ := flushPending_stands stands
  have cursor := settled.stands.cursor
  have within := settled.stands.within
  rw [seek_disk flushed settled.channel settled.opened]
  cases target with
  | start offset | fromEnd offset => exact settled.moveTo rfl
  | current offset =>
    simp only
    split
    · next low =>
      -- an offset that is out of range leads to before the start
      have before : file.position (.current offset) < 0 := by
        have least : Int64.minValue.toInt = -PlainFile.lastPosition - 1 := rfl
        simp only [PlainFile.position]
        omega
      exact .refused (if_neg (by omega)) (by simp) settled.standsFor (settled.named ▸ settled.stands.bytes)
    · refine settled.moveTo ?_
      simp only [PlainFile.position]
      omega

end Transfer

namespace PlainFile

variable {h : Handle} {disk : Disk} {name : String} {file : PlainFile} {left : Bytes}

/-- The handle has these bytes to deliver, and stands for the file when it has been read up to what
is ahead. -/
structure Delivers (file : PlainFile) (name : String) (h : Handle) (disk : Disk) (left : Bytes) : Prop where
  last : h.ahead ++ left <:+ file.rest
  stands : h.StandsFor disk name (file.leaving (h.ahead ++ left))

theorem Delivers.settled {t : Transfer} {d : Descriptor} (last : t.handle.ahead ++ left <:+ file.rest)
    (settled : t.Settled name (file.leaving (t.handle.ahead ++ left)) d) : left = file.bytes.drop d.cursor := by
  have rest := settled.stands.rest
  rw [rest_leaving last] at rest
  exact List.append_cancel_left rest

theorem Delivers.unread (delivers : file.Delivers name h disk left) (readable : file.readable = true) {ahead : Bytes}
    (suffix : ahead <:+ h.ahead) : file.Delivers name { h with ahead } disk left := by
  obtain ⟨last, stands⟩ := delivers
  have shorter := suffix.length_le
  have later : ahead ++ left <:+ h.ahead ++ left := by
    obtain ⟨front, same⟩ := suffix
    exact ⟨front, by rw [← same, List.append_assoc]⟩
  refine ⟨later.trans last, ?_⟩
  obtain @⟨d, base, channel, named, opened, ordinary, stands, same, apart, able⟩ := stands
  by_cases none : h.pending = []
  · rw [none] at same
    obtain rfl : base = file.leaving (h.ahead ++ left) := same
    have found := Delivers.settled (t := ⟨h, disk, [], 0⟩) last ⟨channel, named, opened, ordinary, stands, none⟩
    refine Transfer.Settled.standsFor (t := ⟨{ h with ahead }, disk, [], 0⟩)
      ⟨channel, named, opened, ordinary, ?_, none⟩
    refine ⟨stands.bytes, stands.readable, stands.writable, stands.append, ?_, ?_, ?_, stands.within⟩
    · have cursor := stands.cursor
      have most := last.length_le
      simp only [leaving, List.length_append] at cursor most ⊢
      omega
    · rw [rest_leaving (later.trans last)]
      exact congrArg (ahead ++ ·) found
    · intro unreadable
      cases readable.symm.trans unreadable
  · -- with bytes pending there was nothing ahead, so nothing has been read since
    have nothing : h.ahead = [] := apart.resolve_right none
    rw [nothing] at suffix
    obtain rfl : ahead = [] := List.suffix_nil.mp suffix
    rw [nothing] at stands same
    exact .intro channel named opened ordinary stands same (.inl rfl) able

theorem Delivers.rounds {t : Transfer} (delivers : file.Delivers name t.handle t.disk left) :
    left.length < t.chunksLeft := by
  obtain ⟨last, stands⟩ := delivers
  obtain @⟨d, base, channel, named, opened, ordinary, stands, same, apart, able⟩ := stands
  suffices most : left.length ≤ base.bytes.length by
    simp only [Transfer.chunksLeft, channel, stands.bytes]
    omega
  by_cases none : t.handle.pending = []
  · rw [none] at same
    obtain rfl : base = file.leaving (t.handle.ahead ++ left) := same
    have found := Delivers.settled last ⟨channel, named, opened, ordinary, stands, none⟩
    rw [found]
    exact (List.drop_suffix _ _).length_le
  · -- what is pending lies before the bytes that are left
    have rest := rest_leaving last
    rw [apart.resolve_right none, List.nil_append] at rest same
    rw [← same, written_of_ne none] at rest
    rw [← rest]
    simp only [PlainFile.rest, drop_overwrite]
    exact (List.drop_suffix _ _).length_le

theorem Delivers.fills {t : Transfer} (delivers : file.Delivers name t.handle t.disk left)
    (readable : file.readable = true) :
    Transfer.Fills (fun h disk left blocks => blocks = 0 ∧ file.Delivers name h disk left) t left 0 (Transfer.fill t) := by
  obtain ⟨last, stands⟩ := delivers
  obtain ⟨after, d, flushed, settled, ahead, collected, _⟩ := Transfer.flushPending_stands stands
  have able : after.handle.isReadable = true := by
    simp [Handle.isReadable, settled.opened, settled.channel, settled.stands.readable, leaving, readable]
  rw [← ahead] at last settled
  have found := Delivers.settled last settled
  obtain ⟨chunk, moved⟩ := settled.stands.read readable
  replace chunk : (d.read after.disk).1 = left.take chunkSize := chunk.trans (by rw [found]; rfl)
  have split : left = (d.read after.disk).1 ++ left.drop chunkSize := by rw [chunk, List.take_append_drop]
  rw [Transfer.fill_of_flushed flushed, Transfer.readChunk_disk settled.channel, if_pos able]
  simp only
  have same : after.handle.ahead ++ (d.read after.disk).1 ++ left.drop chunkSize = after.handle.ahead ++ left := by
    rw [List.append_assoc, ← split]
  have named : (d.read after.disk).2.name = name := settled.named
  generalize d.read after.disk = read at chunk moved split same named
  obtain ⟨bytes, next⟩ := read
  have still : file.Delivers name { after.handle with channel := .disk next, ahead := after.handle.ahead ++ bytes }
      after.disk (left.drop chunkSize) := by
    refine ⟨?_, ?_⟩ <;> simp only [same]
    · exact last
    · exact Transfer.Settled.standsFor
        (t := ⟨{ after.handle with channel := .disk next, ahead := _ }, after.disk, [], 0⟩)
        ⟨rfl, named, settled.opened, settled.ordinary, moved, settled.pending⟩
  by_cases none : bytes = []
  · subst none
    obtain rfl : left = [] := by simpa [chunkSize] using chunk
    exact .ended rfl (by simpa using ahead) collected ⟨rfl, still⟩
  · exact .chunk none split (congrArg (· ++ bytes) ahead) collected ⟨rfl, still⟩

end PlainFile

def Feed.file (name : String) (file : PlainFile) (readable : file.readable = true) : Feed where
  holds h disk left blocks := blocks = 0 ∧ file.Delivers name h disk left
  unread := by
    rintro h disk left blocks ahead ⟨none, delivers⟩ suffix
    exact ⟨none, delivers.unread readable suffix⟩
  rounds := by
    rintro t left blocks ⟨_, delivers⟩
    exact delivers.rounds
  fills := by
    rintro t left _ ⟨rfl, delivers⟩
    exact delivers.fills readable

end CoopScript
