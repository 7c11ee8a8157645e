import CoopScript.Proofs.DecodedText
import CoopScript.Proofs.FormatRounds
import CoopScript.Script.Operator

/-! Strings by positions. The positions between two others are what two offsets cut out, and each offset is found with
its own bounds: a start is never before the first byte and an end never behind the last. In words of 64 bits no step
towards an offset wraps around, as long as the position can be negated. -/

namespace CoopScript

namespace Strings

/-- Where a position is if it is counted from the start, as negative ones are not. -/
def position (length : Nat) (index : Int) : Int := if 0 ≤ index then index else length + index + 1

/-- The bytes at the positions from `first` to `last`, counted from one, as far as there are any. -/
def bytesAt (all : Bytes) (first last : Int) : Bytes :=
  ((all.zipIdx 1).filter fun e => max 1 first ≤ e.2 ∧ e.2 ≤ min (all.length : Int) last).map Prod.fst

/-- The entries behind an offset and up to another, where the list begins with the one behind `before`. -/
theorem filter_zipIdx {α : Type} (all : List α) (start stop before : Nat) :
    ((all.zipIdx (before + 1)).filter fun e => start < e.2 ∧ e.2 ≤ stop).map Prod.fst =
      (all.take (stop - before)).drop (start - before) := by
  induction all generalizing before with
  | nil => simp
  | cons x all ih =>
    rw [List.zipIdx_cons]
    -- behind the end nothing is kept, so the head counts only before it
    by_cases short : stop ≤ before
    · rw [List.filter_cons_of_neg (by simp; omega), ih, Nat.sub_eq_zero_of_le short,
        Nat.sub_eq_zero_of_le (Nat.le_succ_of_le short), List.take_zero, List.take_zero, List.drop_nil, List.drop_nil]
    · obtain ⟨more, rest⟩ : ∃ more, stop - before = more + 1 ∧ stop - (before + 1) = more := ⟨stop - (before + 1), by omega⟩
      rw [rest.1, List.take_succ_cons]
      by_cases first : start ≤ before
      · rw [List.filter_cons_of_pos (by simp; omega), List.map_cons, ih, rest.2, Nat.sub_eq_zero_of_le first,
          Nat.sub_eq_zero_of_le (by omega)]
        rfl
      · have skip : start - before = start - (before + 1) + 1 := by omega
        rw [List.filter_cons_of_neg (by simp; omega), ih, rest.2, skip, List.drop_succ_cons]

theorem startOffset_eq (index : Int) (length : Nat) :
    (startOffset index length : Int) = min (max 1 (position length index) - 1) length := by
  rw [startOffset, position]
  omega

theorem endOffset_eq (index : Int) (length : Nat) :
    (endOffset index length : Int) = max 0 (min (length : Int) (position length index)) := by
  rw [endOffset, position]
  omega

/-- What the offsets cut out are the bytes at the positions. -/
theorem byteRange_eq (s : String) (i j : Int) :
    byteRange s i j = bytesAt (bytes s) (position (bytes s).length i) (position (bytes s).length j) := by
  have first := startOffset_eq i (bytes s).length
  have last := endOffset_eq j (bytes s).length
  rw [byteRange, bytesAt]
  generalize startOffset i (bytes s).length = start at *
  generalize endOffset j (bytes s).length = stop at *
  have cut := filter_zipIdx (bytes s) start stop 0
  rw [Nat.sub_zero, Nat.sub_zero] at cut
  rw [← cut]
  congr 2
  funext e
  rw [decide_eq_decide]
  omega

/-- The position of a start in words of 64 bits, with what lies before the first one put there. -/
def firstWord (index length : Int64) : Int64 :=
  if 0 < index then index else if index = 0 ∨ length < -index then 1 else length + index + 1

/-- The start offset in words of 64 bits. -/
def startWord (index length : Int64) : Int64 :=
  if firstWord index length - 1 < length then firstWord index length - 1 else length

/-- The end offset in words of 64 bits. -/
def endWord (index length : Int64) : Int64 :=
  if length < index then length else if 0 ≤ index then index else if length < -index then 0 else length + index + 1

section Words

variable {i length : Int64} {n : Nat}

theorem toInt_neg (negatable : i ≠ Int64.minValue) : (-i).toInt = -i.toInt := by
  have least : i.toInt ≠ -2 ^ 63 := fun least => negatable (Int64.toInt_inj.mp least)
  have low := Int64.le_toInt i
  have high := Int64.toInt_lt i
  rw [Int64.toInt_neg, Int.bmod_eq_of_le (by omega) (by omega)]

theorem toInt_succ (fits : i + 1 ≠ Int64.minValue) : (i + 1).toInt = i.toInt + 1 := by
  have low := Int64.le_toInt i
  have high := Int64.toInt_lt i
  have greatest : i.toInt ≠ 2 ^ 63 - 1 := by
    intro greatest
    have last : i = Int64.maxValue := Int64.toInt_inj.mp greatest
    exact fits (congrArg (· + 1) last)
  rw [Int64.toInt_add]
  exact Int.bmod_eq_of_le (by simp; omega) (by simp; omega)

/-- A position from the end that is not before the start. -/
theorem toInt_fromEnd (long : length.toInt = n) (negative : i.toInt < 0) (inside : -i.toInt ≤ n) :
    (length + i + 1).toInt = n + i.toInt + 1 := by
  have room := Int64.toInt_lt length
  have sum : (length + i).toInt = n + i.toInt := by
    rw [Int64.toInt_add, long, Int.bmod_eq_of_le (by omega) (by omega)]
  rw [Int64.toInt_add, sum]
  exact Int.bmod_eq_of_le (by simp; omega) (by simp; omega)

theorem toInt_firstWord (negatable : i ≠ Int64.minValue) (long : length.toInt = n) :
    (firstWord i length).toInt = max 1 (position n i.toInt) := by
  simp only [firstWord, position, Int64.lt_iff_toInt_lt, ← Int64.toInt_inj, toInt_neg negatable, long, Int64.toInt_zero]
  by_cases positive : 0 < i.toInt
  · rw [if_pos positive]
    omega
  · rw [if_neg positive]
    by_cases before : i.toInt = 0 ∨ (n : Int) < -i.toInt
    · rw [if_pos before]
      simp only [Int64.reduceToInt]
      omega
    · rw [if_neg before, toInt_fromEnd long (by omega) (by omega)]
      omega

/-- In words the start offset is what it is in integers. -/
theorem toInt_startWord (negatable : i ≠ Int64.minValue) (long : length.toInt = n) :
    (startWord i length).toInt = startOffset i.toInt n := by
  have first := toInt_firstWord negatable long
  have high := Int64.toInt_lt (firstWord i length)
  have before : (firstWord i length - 1).toInt = (firstWord i length).toInt - 1 := by
    rw [Int64.toInt_sub]
    exact Int.bmod_eq_of_le (by simp; omega) (by simp; omega)
  rw [startOffset_eq, ← first, ← before, startWord]
  split
  · next short =>
    rw [Int64.lt_iff_toInt_lt, long] at short
    omega
  · next far =>
    rw [Int64.lt_iff_toInt_lt, long] at far
    omega

theorem toInt_endWord (negatable : i ≠ Int64.minValue) (long : length.toInt = n) :
    (endWord i length).toInt = endOffset i.toInt n := by
  rw [endOffset_eq]
  simp only [endWord, position, Int64.lt_iff_toInt_lt, Int64.le_iff_toInt_le, toInt_neg negatable, long,
    Int64.toInt_zero]
  by_cases beyond : (n : Int) < i.toInt
  · rw [if_pos beyond, long]
    omega
  · rw [if_neg beyond]
    by_cases counted : 0 ≤ i.toInt
    · rw [if_pos counted, if_pos counted]
      omega
    · rw [if_neg counted, if_neg counted]
      by_cases before : (n : Int) < -i.toInt
      · rw [if_pos before, Int64.toInt_zero]
        omega
      · rw [if_neg before, toInt_fromEnd long (by omega) (by omega)]
        omega

end Words

section Texts

open Arguments

theorem bytes_append (s t : String) : bytes (s ++ t) = bytes s ++ bytes t := by
  rw [bytes, String.toList_append, Utf8.encode_append]
  rfl

theorem length_bytes (s : String) : (bytes s).length = s.utf8ByteSize := by
  rw [← String.size_toByteArray, ← String.utf8Encode_toList, List.utf8Encode, List.size_toByteArray]
  rfl

theorem ofBytes_bytes (s : String) : ofBytes (bytes s) = s := by
  rw [ofBytes, bytes, Utf8.decode_encode, String.ofList_toList]

/-- The value of a byte. -/
def code (b : UInt8) : Value := intValue b.toNat

theorem codes_of_bytes (all : Bytes) (a : Arguments) (next : a.values.drop a.position = all.map code) :
    codes all.length a = .ok (all, { a with position := a.position + all.length }) := by
  induction all generalizing a with
  | nil => rfl
  | cons b all ih =>
    have first : a.values[a.position]? = some (code b) := by
      have head := congrArg (·[0]?) next
      simpa [List.getElem?_drop] using head
    have later : a.values.drop (a.position + 1) = all.map code := by
      have tail := congrArg List.tail next
      simpa [List.tail_drop] using tail
    have small := b.toNat_lt
    have value : (Int64.ofNat b.toNat).toInt = b.toNat := Int64.toInt_ofNat_of_lt (by omega)
    have isByte : 0 ≤ (b.toNat : Int) ∧ (b.toNat : Int) < 256 := by omega
    rw [List.length_cons, codes]
    change Except.bind (nextInt a) _ = _
    rw [takes_nextInt (i := Int64.ofNat b.toNat) rfl a first]
    change (if 0 ≤ (Int64.ofNat b.toNat).toInt ∧ (Int64.ofNat b.toNat).toInt < 256 then _ else _ : ArgumentsM Bytes) _ = _
    rw [value, if_pos isByte]
    change Except.bind (codes all.length a.moved) _ = _
    have place : a.moved.position + all.length = a.position + (all.length + 1) := Nat.add_right_comm _ _ _
    rw [ih a.moved later, place]
    change Except.ok (UInt8.ofNat b.toNat :: all, _) = _
    rw [UInt8.ofNat_toNat]
    rfl

/-- The string of the bytes is made of their values. -/
theorem invoke_char (all : Bytes) (w : World) :
    Builtin.char.invoke (all.map code) w = (.ok (.ret [.str (ofBytes all)]), w) := by
  have read := codes_of_bytes all ⟨"char", all.map code, 0⟩ rfl
  have made : Strings.char (all.map code) = .ok [.str (ofBytes all)] := by
    rw [Strings.char, List.length_map]
    change Except.bind (Except.bind (codes all.length ⟨"char", all.map code, 0⟩) _) _ = _
    rw [read]
    rfl
  change (raising (Strings.char (all.map code)) >>= fun results => pure (Action.ret results)) w = _
  rw [made]
  rfl

theorem invoke_byte (s : String) (i j : Int64) (w : World) :
    Builtin.byte.invoke [.str s, .int i, .int j] w = (.ok (.ret ((byteRange s i.toInt j.toInt).map code)), w) := rfl

theorem invoke_sub (s : String) (i j : Int64) (w : World) :
    Builtin.sub.invoke [.str s, .int i, .int j] w = (.ok (.ret [.str (ofBytes (byteRange s i.toInt j.toInt))]), w) := rfl

/-- The bytes up to an offset. -/
theorem byteRange_before (s : String) {k : Nat} (inside : k ≤ (bytes s).length) : byteRange s 1 k = (bytes s).take k := by
  have start := startOffset_eq 1 (bytes s).length
  have stop := endOffset_eq k (bytes s).length
  simp only [position] at start stop
  have none : startOffset 1 (bytes s).length = 0 := by omega
  have all : endOffset k (bytes s).length = k := by omega
  rw [byteRange, none, all, List.drop_zero]

/-- The bytes from an offset on. -/
theorem byteRange_after (s : String) {k : Nat} (inside : k ≤ (bytes s).length) :
    byteRange s (k + 1) (-1) = (bytes s).drop k := by
  have start := startOffset_eq (k + 1) (bytes s).length
  have stop := endOffset_eq (-1) (bytes s).length
  simp only [position] at start stop
  have skipped : startOffset (k + 1) (bytes s).length = k := by omega
  have all : endOffset (-1) (bytes s).length = (bytes s).length := by omega
  rw [byteRange, skipped, all, List.take_length]

/-- A string cut at the end of a character. -/
theorem byteRange_parts (first rest : String) :
    byteRange (first ++ rest) 1 first.utf8ByteSize = bytes first ∧
      byteRange (first ++ rest) (first.utf8ByteSize + 1) (-1) = bytes rest := by
  have inside : first.utf8ByteSize ≤ (bytes (first ++ rest)).length := by
    rw [length_bytes, String.utf8ByteSize_append]
    exact Nat.le_add_right _ _
  rw [byteRange_before _ inside, byteRange_after _ inside, bytes_append, ← length_bytes]
  exact ⟨List.take_left, List.drop_left⟩

end Texts

/-- The slice between the offsets of two positions is inside a string of `n` bytes, also in words of 64 bits. -/
def Inside (i j : Int64) (n : Nat) : Prop :=
  startOffset i.toInt n ≤ n ∧ endOffset j.toInt n ≤ n ∧ ∀ length : Int64, length.toInt = n →
    (startWord i length).toInt = startOffset i.toInt n ∧ (endWord j length).toInt = endOffset j.toInt n

/-- The bytes between two positions are the ones at these positions, in order, and the substring is what they decode to;
the offsets in between are inside the string. So the values of all bytes make up the string again, and so do the
substrings before and after the end of a character. -/
theorem substrings_by_position (s : String) (w : World) :
    (∀ i j : Int64, i ≠ Int64.minValue → j ≠ Int64.minValue →
      let found := bytesAt (bytes s) (position s.utf8ByteSize i.toInt) (position s.utf8ByteSize j.toInt)
      Builtin.byte.invoke [.str s, .int i, .int j] w = (.ok (.ret (found.map code)), w) ∧
      Builtin.sub.invoke [.str s, .int i, .int j] w = (.ok (.ret [.str (ofBytes found)]), w) ∧
      Inside i j s.utf8ByteSize) ∧
    (∃ values, Builtin.byte.invoke [.str s, .int 1, .int (-1)] w = (.ok (.ret values), w) ∧
      Builtin.char.invoke values w = (.ok (.ret [.str s]), w)) ∧
    ∀ k : Int64, 0 ≤ k → k + 1 ≠ Int64.minValue → String.Pos.Raw.IsValid s ⟨k.toInt.toNat⟩ →
      ∃ a b, Builtin.sub.invoke [.str s, .int 1, .int k] w = (.ok (.ret [a]), w) ∧
        Builtin.sub.invoke [.str s, .int (k + 1), .int (-1)] w = (.ok (.ret [b]), w) ∧
        concatValues a b = .ok (.str s) := by
  refine ⟨?_, ⟨_, invoke_byte s 1 (-1) w, ?_⟩, ?_⟩
  · intro i j negatable negatable'
    have found := byteRange_eq s i.toInt j.toInt
    rw [length_bytes] at found
    refine ⟨?_, ?_, ?_, ?_, ?_⟩
    · rw [invoke_byte, found]
    · rw [invoke_sub, found]
    · have start := startOffset_eq i.toInt s.utf8ByteSize
      omega
    · have stop := endOffset_eq j.toInt s.utf8ByteSize
      omega
    · intro length long
      exact ⟨toInt_startWord negatable long, toInt_endWord negatable' long⟩
  · have all : byteRange s (1 : Int64).toInt (-1 : Int64).toInt = bytes s := byteRange_after s (k := 0) (Nat.zero_le _)
    rw [all, invoke_char, ofBytes_bytes]
  · intro k counted fits valid
    obtain ⟨first, rest, rfl, place⟩ := String.Pos.Raw.isValid_iff_exists_append.mp valid
    have counted : 0 ≤ k.toInt := Int64.le_iff_toInt_le.mp counted
    have here : k.toInt.toNat = first.utf8ByteSize := congrArg String.Pos.Raw.byteIdx place
    have before : k.toInt = first.utf8ByteSize := by omega
    have after : (k + 1).toInt = first.utf8ByteSize + 1 := (toInt_succ fits).trans (congrArg (· + 1) before)
    obtain ⟨start, stop⟩ := byteRange_parts first rest
    have start : byteRange (first ++ rest) (1 : Int64).toInt k.toInt = bytes first := before ▸ start
    have stop : byteRange (first ++ rest) (k + 1).toInt (-1 : Int64).toInt = bytes rest := after ▸ stop
    refine ⟨.str first, .str rest, ?_, ?_, rfl⟩
    · rw [invoke_sub, start, ofBytes_bytes]
    · rw [invoke_sub, stop, ofBytes_bytes]

/-- A character of two bytes, in whole and in part, and cut off in front. -/
theorem substrings_by_position_accented :
    Builtin.byte.invoke [.str "aé", .int (-2), .int 7] {} = (.ok (.ret [.int 195, .int 169]), {}) ∧
    Builtin.sub.invoke [.str "aé", .int 0, .int (-2)] {} = (.ok (.ret [.str "a\uFFFD"]), {}) ∧
    Inside 0 (-2) 3 ∧
    ∃ a b, Builtin.sub.invoke [.str "aé", .int 1, .int 1] {} = (.ok (.ret [a]), {}) ∧
      Builtin.sub.invoke [.str "aé", .int 2, .int (-1)] {} = (.ok (.ret [b]), {}) ∧
      concatValues a b = .ok (.str "aé") := by
  obtain ⟨between, -, parts⟩ := substrings_by_position "aé" {}
  obtain ⟨listed, -, -⟩ := between (-2) 7 (by decide) (by decide)
  obtain ⟨-, cut, inside⟩ := between 0 (-2) (by decide) (by decide)
  have valid : String.Pos.Raw.IsValid "aé" ⟨1⟩ := String.Pos.Raw.isValid_iff_exists_append.mpr ⟨"a", "é", rfl, rfl⟩
  refine ⟨listed.trans ?_, cut.trans ?_, inside, parts 1 (by decide) (by decide) valid⟩
  · exact congrArg (fun values => (Except.ok (Action.ret values), _)) (by decide +kernel)
  · exact congrArg (fun text => (Except.ok (Action.ret [.str text]), _)) (by decide +kernel)

end Strings

end CoopScript
