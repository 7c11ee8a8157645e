import CoopScript.Stream.Reading
import Mathlib

/-! Items of a byte string. A handle reads an item from what it has read ahead and from chunks that
its device delivers, and may be refused between two chunks. What comes of it is decided by the
bytes alone: each format takes its item from the front of the string, whatever the chunks. -/

namespace CoopScript

namespace ReadFormat

/-- The item at the front of the bytes, and the bytes after it. -/
def take : ReadFormat → Bytes → Value × Bytes
  | .line keepNewline, bytes =>
    let line := bytes.takeWhile (· ≠ 10)
    let rest := bytes.dropWhile (· ≠ 10)
    if bytes.isEmpty then (.nil, [])
    else (Transfer.textValue (some (if keepNewline then line ++ rest.take 1 else line)), rest.drop 1)
  | .all, bytes => (Transfer.textValue (some bytes), [])
  | .number, bytes =>
    let start := bytes.dropWhile Transfer.isSpaceByte
    let numeral := (start.takeWhile Transfer.isNumeralByte).take Transfer.numeralLimit
    (Transfer.numeralValue numeral, start.drop numeral.length)
  | .count n, bytes =>
    if bytes.isEmpty then (.nil, []) else (Transfer.textValue (some (bytes.take n)), bytes.drop n)

/-- The items that the formats take one after another, up to the first that is nil. -/
def takeEach : List ReadFormat → Bytes → List Value × Bytes
  | [], bytes => ([], bytes)
  | format :: formats, bytes =>
    let (v, rest) := format.take bytes
    if v.isNil then ([v], rest)
    else
      let (values, rest) := takeEach formats rest
      (v :: values, rest)

/-- The bytes can be the beginning of an item that is not complete. -/
def Partial : ReadFormat → Bytes → Prop
  | .line _, collected => 10 ∉ collected
  | .all, _ => True
  | .number, collected => (∀ b ∈ collected, Transfer.isNumeralByte b = true) ∧ collected.length ≤ Transfer.numeralLimit
  | .count n, collected => collected.length ≤ n

theorem Partial.nil (format : ReadFormat) : format.Partial [] := by
  cases format <;> simp [Partial]

theorem takeWhile_newline {start : Bytes} (before : 10 ∉ start) (rest : Bytes) :
    (start ++ 10 :: rest).takeWhile (· ≠ 10) = start ∧ (start ++ 10 :: rest).dropWhile (· ≠ 10) = 10 :: rest := by
  induction start with
  | nil => simp
  | cons b start ih =>
    obtain ⟨other, before⟩ : b ≠ 10 ∧ 10 ∉ start := by simpa [eq_comm] using before
    obtain ⟨taken, dropped⟩ := ih before
    simp only [List.cons_append, List.takeWhile_cons, List.dropWhile_cons, other, ne_eq, not_false_eq_true, decide_true,
      if_true]
    exact ⟨congrArg (b :: ·) taken, dropped⟩

theorem take_line {start : Bytes} (before : 10 ∉ start) (rest : Bytes) (keepNewline : Bool) :
    (line keepNewline).take (start ++ 10 :: rest) =
      (Transfer.textValue (some (if keepNewline then start ++ [10] else start)), rest) := by
  obtain ⟨taken, dropped⟩ := takeWhile_newline before rest
  have filled : (start ++ 10 :: rest).isEmpty = false := by simp
  simp only [take, taken, dropped, filled, Bool.false_eq_true, if_false, List.take_succ_cons, List.take_zero,
    List.drop_succ_cons, List.drop_zero]

theorem take_lastLine {bytes : Bytes} (unfinished : 10 ∉ bytes) (keepNewline : Bool) :
    (line keepNewline).take bytes = (Transfer.textValue (if bytes.isEmpty then none else some bytes), []) := by
  have all : ∀ b ∈ bytes, decide (b ≠ 10) = true := by
    intro b member
    rw [decide_eq_true_iff]
    rintro rfl
    exact unfinished member
  have taken : bytes.takeWhile (· ≠ 10) = bytes := List.takeWhile_eq_self_iff.mpr all
  have dropped : bytes.dropWhile (· ≠ 10) = [] := List.dropWhile_eq_nil_iff.mpr all
  simp only [take, taken, dropped, List.take_nil, List.drop_nil, List.append_nil, ite_self]
  split <;> rfl

theorem take_lastBytes {bytes : Bytes} {n : Nat} (few : bytes.length ≤ n) :
    (count n).take bytes = (Transfer.textValue (if bytes.isEmpty then none else some bytes), []) := by
  simp only [take, List.take_of_length_le few, List.drop_of_length_le few]
  split <;> rfl

private theorem not_numeral_of_space {b : UInt8} (space : Transfer.isSpaceByte b = true) :
    Transfer.isNumeralByte b = false := by
  simp only [Transfer.isSpaceByte, Bool.or_eq_true, decide_eq_true_eq] at space
  rcases space with (((rfl | rfl) | rfl) | rfl) | rfl <;> rfl

/-- A numeral is over where a byte cannot continue it, or where it is as long as numerals can be. -/
theorem take_numeral {numeral : Bytes} (begun : number.Partial numeral) (rest : Bytes)
    (ended : ∀ b ∈ rest.head?, (numeral = [] → Transfer.isSpaceByte b = false) ∧
      (Transfer.isNumeralByte b = true → Transfer.numeralLimit ≤ numeral.length)) :
    number.take (numeral ++ rest) = (Transfer.numeralValue numeral, rest) := by
  have start : (numeral ++ rest).dropWhile Transfer.isSpaceByte = numeral ++ rest := by
    cases numeral with
    | cons b numeral =>
      have solid : Transfer.isSpaceByte b = false := by
        by_contra space
        have other := not_numeral_of_space (Bool.not_eq_false _ ▸ space)
        rw [begun.1 b List.mem_cons_self] at other
        cases other
      simp [solid]
    | nil =>
      cases rest with
      | nil => rfl
      | cons b rest => simp [(ended b rfl).1 rfl]
  have taken : ((numeral ++ rest).takeWhile Transfer.isNumeralByte).take Transfer.numeralLimit = numeral := by
    rw [List.takeWhile_append_of_pos begun.1]
    cases rest with
    | nil => simp [List.take_of_length_le begun.2]
    | cons b rest =>
      cases continues : Transfer.isNumeralByte b with
      | false => simp [continues, List.take_of_length_le begun.2]
      | true =>
        have full := (ended b rfl).2 continues
        rw [List.take_append_of_le_length full, List.take_of_length_le begun.2]
  simp only [take, start, taken, List.drop_left]

/-- Adding the bytes at hand to a numeral that has begun leaves the item as it is: either it is
complete, or what comes later decides. -/
theorem take_scanNumeral {collected : Bytes} (begun : number.Partial collected) (ahead later : Bytes) :
    match Transfer.scanNumeral collected ahead with
    | (numeral, rest, true) =>
      number.take (collected ++ (ahead ++ later)) = (Transfer.numeralValue numeral, rest ++ later)
    | (numeral, rest, false) =>
      rest = [] ∧ number.Partial numeral ∧ number.take (collected ++ (ahead ++ later)) = number.take (numeral ++ later) := by
  induction ahead generalizing collected with
  | nil => exact ⟨rfl, begun, rfl⟩
  | cons b ahead ih =>
    rw [Transfer.scanNumeral]
    by_cases blank : (collected.isEmpty && Transfer.isSpaceByte b) = true
    · obtain ⟨none, space⟩ : collected = [] ∧ Transfer.isSpaceByte b = true := by simpa using blank
      subst none
      have skipped : number.take ([] ++ (b :: ahead ++ later)) = number.take ([] ++ (ahead ++ later)) := by
        simp only [take, List.nil_append, List.cons_append, List.dropWhile_cons, space, if_true]
      rw [if_pos blank, skipped]
      exact ih begun
    · rw [if_neg blank]
      by_cases continues : (Transfer.isNumeralByte b && decide (collected.length < Transfer.numeralLimit)) = true
      · obtain ⟨digit, short⟩ : Transfer.isNumeralByte b = true ∧ collected.length < Transfer.numeralLimit := by
          simpa using continues
        have longer : number.Partial (collected ++ [b]) := by
          refine ⟨?_, by simpa using short⟩
          intro other member
          rcases List.mem_append.mp member with member | member
          · exact begun.1 other member
          · rw [List.mem_singleton.mp member]
            exact digit
        have same : collected ++ (b :: ahead ++ later) = collected ++ [b] ++ (ahead ++ later) := by simp
        rw [if_pos continues, same]
        exact ih longer
      · rw [if_neg continues]
        apply take_numeral begun _
        intro first head
        obtain rfl : b = first := by simpa using head
        refine ⟨?_, ?_⟩
        · intro none
          simpa [none] using blank
        · intro digit
          simpa [digit] using continues

end ReadFormat

namespace Transfer

def withAhead (t : Transfer) (ahead : Bytes) : Transfer := { t with handle := { t.handle with ahead } }

def withCollected (t : Transfer) (collected : Bytes) : Transfer := { t with collected }

@[simp] theorem withAhead_ahead (t : Transfer) (ahead : Bytes) : (t.withAhead ahead).handle.ahead = ahead := rfl

@[simp] theorem withAhead_collected (t : Transfer) (ahead : Bytes) : (t.withAhead ahead).collected = t.collected := rfl

@[simp] theorem withCollected_collected (t : Transfer) (collected : Bytes) :
    (t.withCollected collected).collected = collected := rfl

@[simp] theorem withCollected_handle (t : Transfer) (collected : Bytes) :
    (t.withCollected collected).handle = t.handle := rfl

section Operations

variable {α β : Type} (t : Transfer)

theorem bind_apply (op : TransferM α) (next : α → TransferM β) :
    (op >>= next) t = match op t with | (.ok a, t) => next a t | (.error e, t) => (.error e, t) := by
  change (ExceptT.bind op next) t = _
  simp only [ExceptT.bind, ExceptT.mk, Bind.bind, StateT.bind]
  rcases op t with ⟨_ | _, _⟩ <;> rfl

theorem pure_apply (a : α) : (pure a : TransferM α) t = (.ok a, t) := rfl

theorem get_apply : (get : TransferM Transfer) t = (.ok t, t) := rfl

theorem getHandle_apply : getHandle t = (.ok t.handle, t) := rfl

theorem setAhead_apply (ahead : Bytes) : setAhead ahead t = (.ok (), t.withAhead ahead) := rfl

theorem setCollected_apply (collected : Bytes) : setCollected collected t = (.ok (), t.withCollected collected) := rfl

theorem setChannel_apply (channel : Channel) :
    setChannel channel t = (.ok (), { t with handle := { t.handle with channel } }) := rfl

theorem flushPending_of_nil {t : Transfer} (nothing : t.handle.pending = []) : flushPending t = (.ok (), t) := by
  simp only [flushPending, bind_apply, getHandle_apply, nothing]
  rfl

/-- With nothing to be written first, a chunk is read ahead. -/
theorem fill_of_nil {t : Transfer} (nothing : t.handle.pending = []) : fill t =
    match readChunk t with
    | (.ok bytes, t) => (.ok bytes.length, t.withAhead (t.handle.ahead ++ bytes))
    | (.error e, t) => (.error e, t) := by
  simp only [fill, bind_apply, flushPending_of_nil nothing]
  rcases readChunk t with ⟨_ | _, _⟩ <;> rfl

theorem takeCollected_apply : takeCollected t = (.ok t.collected, t.withCollected []) := rfl

theorem takeCollected?_apply :
    takeCollected? t = (.ok (if t.collected.isEmpty then none else some t.collected), t.withCollected []) := rfl

theorem collectAhead_apply :
    collectAhead t = (.ok (), (t.withCollected (t.collected ++ t.handle.ahead)).withAhead []) := rfl

end Operations

/-- What the device does when it is asked for a chunk while it still has these bytes and blocks to
come: it delivers the first of the bytes, or it is at its end, or it blocks. -/
inductive Fills (holds : Handle → Disk → Bytes → Nat → Prop) (t : Transfer) (left : Bytes) (blocks : Nat) :
    Except DeviceError Nat × Transfer → Prop where
  | chunk {after : Transfer} {chunk rest : Bytes} (some : chunk ≠ []) (first : left = chunk ++ rest)
      (ahead : after.handle.ahead = t.handle.ahead ++ chunk) (collected : after.collected = t.collected)
      (still : holds after.handle after.disk rest blocks) : Fills holds t left blocks (.ok chunk.length, after)
  | ended {after : Transfer} (none : left = []) (ahead : after.handle.ahead = t.handle.ahead)
      (collected : after.collected = t.collected) (still : holds after.handle after.disk [] blocks) :
      Fills holds t left blocks (.ok 0, after)
  | blocked {after : Transfer} {fewer : Nat} (one : blocks = fewer + 1) (ahead : after.handle.ahead = t.handle.ahead)
      (collected : after.collected = t.collected) (still : holds after.handle after.disk left fewer) :
      Fills holds t left blocks (.error .wouldBlock, after)

end Transfer

/-- A kind of device to read from. A handle is connected to one that still has some bytes to
deliver and will block some number of times; reading changes only what is ahead and collected. -/
structure Feed where
  holds : Handle → Disk → Bytes → Nat → Prop
  unread : ∀ {h : Handle} {disk : Disk} {left : Bytes} {blocks : Nat} {ahead : Bytes}, holds h disk left blocks →
    ahead <:+ h.ahead → holds { h with ahead } disk left blocks
  rounds : ∀ {t : Transfer} {left : Bytes} {blocks : Nat}, holds t.handle t.disk left blocks → left.length < t.chunksLeft
  fills : ∀ {t : Transfer} {left : Bytes} {blocks : Nat}, holds t.handle t.disk left blocks →
    Transfer.Fills holds t left blocks (Transfer.fill t)

theorem Transfer.scanNumeral_suffix (collected ahead : Bytes) : (scanNumeral collected ahead).2.1 <:+ ahead := by
  induction ahead generalizing collected with
  | nil => exact List.suffix_rfl
  | cons b ahead ih =>
    rw [scanNumeral]
    split
    · exact (ih _).trans (List.suffix_cons b ahead)
    · split
      · exact (ih _).trans (List.suffix_cons b ahead)
      · exact List.suffix_rfl

namespace Feed

open Transfer

/-- What an attempt to read an item comes to: the item at the front of the bytes, or a block after
which the same item is still to be read. -/
inductive Reads (feed : Feed) (format : ReadFormat) (bytes : Bytes) (blocks : Nat) {α : Type} (shown : α → Value) :
    Except DeviceError α × Transfer → Prop where
  | item {a : α} {after : Transfer} (left : Bytes) (taken : format.take bytes = (shown a, after.handle.ahead ++ left))
      (still : feed.holds after.handle after.disk left blocks) : Reads feed format bytes blocks shown (.ok a, after)
  | blocked {after : Transfer} {left : Bytes} {fewer : Nat} (one : blocks = fewer + 1)
      (begun : format.Partial after.collected)
      (same : format.take (after.collected ++ (after.handle.ahead ++ left)) = format.take bytes)
      (still : feed.holds after.handle after.disk left fewer) :
      Reads feed format bytes blocks shown (.error .wouldBlock, after)

variable {feed : Feed} {t : Transfer} {left : Bytes} {blocks : Nat}

theorem Reads.of_same {format : ReadFormat} {bytes other : Bytes} {α : Type} {shown : α → Value}
    {result : Except DeviceError α × Transfer} (reads : feed.Reads format bytes blocks shown result)
    (same : format.take bytes = format.take other) : feed.Reads format other blocks shown result := by
  cases reads with
  | item left taken still => exact .item left (same.symm.trans taken) still
  | blocked one begun unchanged still => exact .blocked one begun (unchanged.trans same) still

theorem Reads.render {format : ReadFormat} {bytes : Bytes} {α : Type} {shown : α → Value} {op : TransferM α}
    (reads : feed.Reads format bytes blocks shown (op t)) :
    feed.Reads format bytes blocks id ((do return shown (← op) : TransferM Value) t) := by
  rw [bind_apply]
  generalize op t = result at reads
  cases reads with
  | item left taken still => exact .item left taken still
  | blocked one begun same still => exact .blocked one begun same still

/-- Every item is read in rounds that end like this one: if the device is at its end the item is
what there is, and otherwise the next round sees one more chunk. -/
theorem Reads.refill {format : ReadFormat} {bytes : Bytes} {α : Type} {shown : α → Value} {finish loop : TransferM α}
    (holds : feed.holds t.handle t.disk left blocks) (begun : format.Partial t.collected)
    (same : format.take (t.collected ++ (t.handle.ahead ++ left)) = format.take bytes)
    (ended : ∀ after, left = [] → after.handle.ahead = t.handle.ahead → after.collected = t.collected →
      feed.holds after.handle after.disk [] blocks → feed.Reads format bytes blocks shown (finish after))
    (more : ∀ after rest, rest.length < left.length → after.collected = t.collected →
      after.handle.ahead ++ rest = t.handle.ahead ++ left → feed.holds after.handle after.disk rest blocks →
      feed.Reads format bytes blocks shown (loop after)) :
    feed.Reads format bytes blocks shown ((do if (← fill) = 0 then finish else loop) t) := by
  have fills := feed.fills holds
  rw [bind_apply]
  generalize fill t = result at fills
  cases fills with
  | @chunk after chunk rest some first ahead collected still =>
    have positive : chunk.length ≠ 0 := by simpa using some
    simp only [positive, if_false]
    refine more after rest ?_ collected ?_ still
    · simp only [first, List.length_append]
      omega
    · rw [ahead, first, List.append_assoc]
  | ended none ahead collected still => exact ended _ none ahead collected still
  | @blocked after fewer one ahead collected still =>
    refine .blocked one ?_ ?_ still
    · rw [collected]
      exact begun
    · rw [collected, ahead]
      exact same

theorem readLine_reads (keepNewline : Bool) {rounds : Nat} (enough : left.length < rounds)
    (holds : feed.holds t.handle t.disk left blocks) (begun : (ReadFormat.line keepNewline).Partial t.collected) :
    feed.Reads (.line keepNewline) (t.collected ++ (t.handle.ahead ++ left)) blocks textValue
      (readLine keepNewline rounds t) := by
  induction rounds generalizing t left with
  | zero => omega
  | succ rounds ih =>
    simp only [readLine, bind_apply, getHandle_apply]
    split
    · next found =>
      obtain ⟨start, rest, same, before⟩ := List.eq_append_cons_of_mem (List.contains_iff_mem.mp found)
      obtain ⟨taken, dropped⟩ := ReadFormat.takeWhile_newline before rest
      have unfinished : 10 ∉ t.collected ++ start := by simp [before, show 10 ∉ t.collected from begun]
      refine .item left ?_ (feed.unread holds ?_)
      · have item := ReadFormat.take_line unfinished (rest ++ left) keepNewline
        simp only [same, taken, dropped, List.drop_succ_cons, List.drop_zero]
        simpa using item
      · rw [same, dropped]
        exact (List.suffix_cons 10 rest).trans (List.suffix_append start _)
    · next absent =>
      rw [bind_apply, collectAhead_apply]
      have unfinished : 10 ∉ t.collected ++ t.handle.ahead := by
        simpa [show 10 ∉ t.collected from begun] using absent
      refine Reads.refill (feed.unread holds List.nil_suffix) unfinished (by simp) ?_ ?_
      · intro after none ahead collected still
        rw [takeCollected?_apply]
        refine .item _ ?_ still
        rw [none, List.append_nil, ReadFormat.take_lastLine unfinished, collected]
        simpa using ahead
      · intro after rest fewer collected same still
        have next := ih (by omega) still (by rw [collected]; exact unfinished)
        rw [collected, same] at next
        simpa using next

theorem readAll_reads {rounds : Nat} (enough : left.length < rounds) (holds : feed.holds t.handle t.disk left blocks) :
    feed.Reads .all (t.collected ++ (t.handle.ahead ++ left)) blocks (textValue ∘ some) (readAll rounds t) := by
  induction rounds generalizing t left with
  | zero => omega
  | succ rounds ih =>
    rw [readAll, bind_apply, collectAhead_apply]
    refine Reads.refill (feed.unread holds List.nil_suffix) trivial (by simp) ?_ ?_
    · intro after none ahead collected still
      rw [takeCollected_apply]
      refine .item _ ?_ still
      rw [none, List.append_nil, ReadFormat.take, collected]
      simpa using ahead
    · intro after rest fewer collected same still
      have next := ih (by omega) still
      rw [collected, same] at next
      simpa using next

theorem readBytes_succ (n rounds : Nat) (t : Transfer) :
    let item := t.collected ++ t.handle.ahead.take (n - t.collected.length)
    readBytes n (rounds + 1) t =
      (if n ≤ item.length then (do return some (← takeCollected))
        else do if (← fill) = 0 then takeCollected? else readBytes n rounds : TransferM (Option Bytes))
        ((t.withCollected item).withAhead (t.handle.ahead.drop (n - t.collected.length))) := rfl

theorem readBytes_reads {n : Nat} (positive : 0 < n) {rounds : Nat} (enough : left.length < rounds)
    (holds : feed.holds t.handle t.disk left blocks) (begun : (ReadFormat.count n).Partial t.collected) :
    feed.Reads (.count n) (t.collected ++ (t.handle.ahead ++ left)) blocks textValue (readBytes n rounds t) := by
  induction rounds generalizing t left with
  | zero => omega
  | succ rounds ih =>
    have short : t.collected.length ≤ n := begun
    rw [readBytes_succ]
    by_cases full : n ≤ t.collected.length + t.handle.ahead.length
    · have filled : t.collected ++ (t.handle.ahead ++ left) ≠ [] := by
        apply List.ne_nil_of_length_pos
        simp only [List.length_append]
        omega
      rw [if_pos (by simp; omega)]
      refine .item left ?_ (feed.unread holds (List.drop_suffix _ _))
      simp only [ReadFormat.take, List.isEmpty_iff, filled, if_false, List.take_append, List.drop_append,
        List.take_of_length_le short, List.drop_of_length_le short]
      simp [show n - t.collected.length - t.handle.ahead.length = 0 by omega, withCollected, withAhead]
    · have all : t.handle.ahead.length ≤ n - t.collected.length := by omega
      rw [List.take_of_length_le all, List.drop_of_length_le all, if_neg (by simp; omega)]
      have begun : (ReadFormat.count n).Partial (t.collected ++ t.handle.ahead) := by
        simp only [ReadFormat.Partial, List.length_append]
        omega
      refine Reads.refill (feed.unread holds List.nil_suffix) begun (by simp) ?_ ?_
      · intro after none ahead collected still
        rw [takeCollected?_apply]
        refine .item _ ?_ still
        rw [none, List.append_nil, ReadFormat.take_lastBytes begun, collected]
        simpa using ahead
      · intro after rest fewer collected same still
        have next := ih (by omega) still (by rw [collected]; exact begun)
        rw [collected, same] at next
        simpa using next

theorem readNothing_reads (holds : feed.holds t.handle t.disk left blocks)
    (begun : (ReadFormat.count 0).Partial t.collected) :
    feed.Reads (.count 0) (t.collected ++ (t.handle.ahead ++ left)) blocks textValue (readNothing t) := by
  have nothing : t.collected = [] := by simpa [ReadFormat.Partial] using begun
  simp only [readNothing, bind_apply, getHandle_apply]
  split
  · next empty =>
    have same : (fill >>= fun n => pure (if n = 0 then none else some [])) =
        (do if (← fill) = 0 then pure none else pure (some []) : TransferM (Option Bytes)) := by
      congr
      funext n
      split <;> rfl
    rw [same]
    refine Reads.refill holds begun rfl ?_ ?_
    · intro after none ahead collected still
      refine .item _ ?_ still
      simp [ReadFormat.take, nothing, none, ahead, List.isEmpty_iff.mp empty, textValue]
    · intro after rest fewer collected same still
      refine .item _ ?_ still
      have filled : left ≠ [] := List.ne_nil_of_length_pos (by omega)
      simp [ReadFormat.take, nothing, same, List.isEmpty_iff.mp empty, filled]
  · next filled =>
    refine .item _ ?_ holds
    have filled : t.handle.ahead ≠ [] := by simpa using filled
    simp [ReadFormat.take, nothing, filled]

theorem readNumber_reads {rounds : Nat} (enough : left.length < rounds) (holds : feed.holds t.handle t.disk left blocks)
    (begun : ReadFormat.number.Partial t.collected) :
    feed.Reads .number (t.collected ++ (t.handle.ahead ++ left)) blocks id (readNumber rounds t) := by
  induction rounds generalizing t left with
  | zero => omega
  | succ rounds ih =>
    have scanned := ReadFormat.take_scanNumeral begun t.handle.ahead left
    have suffix := scanNumeral_suffix t.collected t.handle.ahead
    simp only [readNumber, bind_apply, getHandle_apply, get_apply, setAhead_apply, setCollected_apply]
    generalize scanNumeral t.collected t.handle.ahead = result at scanned suffix
    obtain ⟨numeral, rest, ended⟩ := result
    cases ended with
    | true => exact .item left scanned (feed.unread holds suffix)
    | false =>
      obtain ⟨rfl, longer, same⟩ := scanned
      simp only [Bool.false_eq_true, if_false]
      refine Reads.refill (feed.unread holds List.nil_suffix) longer same.symm ?_ ?_
      · intro after none ahead collected still
        simp only [bind_apply, takeCollected_apply]
        refine .item [] ?_ still
        have item := ReadFormat.take_numeral longer [] (by simp)
        rw [same, none, item, collected, withCollected_handle, ahead]
        rfl
      · intro after rest fewer collected reaches still
        have next := ih (by omega) still (by rw [collected]; exact longer)
        rw [collected, reaches] at next
        exact next.of_same same.symm

theorem readItem_reads (format : ReadFormat) (holds : feed.holds t.handle t.disk left blocks)
    (begun : format.Partial t.collected) :
    feed.Reads format (t.collected ++ (t.handle.ahead ++ left)) blocks id (readItem format t) := by
  have enough := feed.rounds holds
  cases format with
  | line keepNewline => exact (readLine_reads keepNewline enough holds begun).render
  | all => exact (readAll_reads enough holds).render
  | number => exact readNumber_reads enough holds begun
  | count n =>
    by_cases none : n = 0
    · subst none
      exact (readNothing_reads holds begun).render
    · have read := (readBytes_reads (Nat.pos_of_ne_zero none) enough holds begun).render
      simpa only [readItem, bind_apply, get_apply, none, if_false] using read

end Feed

end CoopScript
