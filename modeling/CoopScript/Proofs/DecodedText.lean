import CoopScript.Text.Utf8

/-! Texts through their bytes. The first byte of a character says how many are to follow and which the next one may be,
and each of these adds six bits. So from the bytes of a text its characters are completed one after another, and none
is replaced. -/

namespace CoopScript

namespace Utf8

theorem start_eq (b : UInt8) : start b =
    if b.toNat < 128 then ([Char.ofNat b.toNat], none)
    else if b.toNat < 194 then ([replacement], none)
    else if b.toNat < 224 then ([], some ⟨1, 0x80, 0xbf, b.toNat % 32⟩)
    else if b.toNat = 224 then ([], some ⟨2, 0xa0, 0xbf, 0⟩)
    else if b.toNat = 237 then ([], some ⟨2, 0x80, 0x9f, 13⟩)
    else if b.toNat < 240 then ([], some ⟨2, 0x80, 0xbf, b.toNat % 16⟩)
    else if b.toNat = 240 then ([], some ⟨3, 0x90, 0xbf, 0⟩)
    else if b.toNat < 244 then ([], some ⟨3, 0x80, 0xbf, b.toNat % 8⟩)
    else if b.toNat = 244 then ([], some ⟨3, 0x80, 0x8f, 4⟩)
    else ([replacement], none) := by
  simp only [start, UInt8.lt_iff_toNat_lt, ← UInt8.toNat_inj]
  rfl

theorem toNat_byte {n : Nat} (small : n < 256) : (UInt8.ofNat n).toNat = n := UInt8.toNat_ofNat_of_lt' small

/-- The byte after the first that adds the last six bits of a number. -/
def tail (n : Nat) : UInt8 := UInt8.ofNat (n % 64 + 128)

theorem toNat_tail (n : Nat) : (tail n).toNat = n % 64 + 128 := toNat_byte (by omega)

/-- The byte may come next. -/
def Begun.Admits (c : Begun) (n : Nat) : Prop := c.low.toNat ≤ n % 64 + 128 ∧ n % 64 + 128 ≤ c.high.toNat

theorem Begun.admits_later (needed value n : Nat) : Begun.Admits ⟨needed, 0x80, 0xbf, value⟩ n :=
  ⟨Nat.le_add_left 128 _, Nat.add_le_add_right (Nat.le_of_lt_succ (Nat.mod_lt n (by decide))) 128⟩

/-- A character that has begun is completed by the bytes, and is then the one of this code. -/
inductive Completes : Begun → Bytes → Nat → Prop where
  | last {c n} (one : c.needed = 1) (admits : c.Admits n) : Completes c [tail n] (c.value * 64 + n % 64)
  | more {c n needed bytes code} (several : c.needed = needed + 2) (admits : c.Admits n)
      (later : Completes ⟨needed + 1, 0x80, 0xbf, c.value * 64 + n % 64⟩ bytes code) : Completes c (tail n :: bytes) code

theorem feed_tail {c : Begun} {n : Nat} (admits : c.Admits n) : feed (some c) (tail n) =
    if c.needed ≤ 1 then ([Char.ofNat (c.value * 64 + n % 64)], none)
    else ([], some ⟨c.needed - 1, 0x80, 0xbf, c.value * 64 + n % 64⟩) := by
  have within : (c.low ≤ tail n && tail n ≤ c.high) = true := by
    simp only [UInt8.le_iff_toNat_le, toNat_tail, Bool.and_eq_true, decide_eq_true_eq]
    exact admits
  have bits : (tail n).toNat % 64 = n % 64 := by
    rw [toNat_tail]
    omega
  simp only [feed, within, if_true, bits]

theorem Completes.decodeFrom {c : Begun} {bytes : Bytes} {code : Nat} (completes : Completes c bytes code) (rest : Bytes) :
    decodeFrom (some c) (bytes ++ rest) = Char.ofNat code :: decodeFrom none rest := by
  induction completes with
  | last one admits =>
    rw [List.singleton_append, Utf8.decodeFrom, feed_tail admits, if_pos (Nat.le_of_eq one)]
    rfl
  | more several admits _ ih =>
    rw [List.cons_append, Utf8.decodeFrom, feed_tail admits, if_neg (by omega), several]
    exact ih

theorem decodeFrom_of_start {b : UInt8} {c : Begun} {bytes : Bytes} {code : Nat} (begun : start b = ([], some c))
    (completes : Completes c bytes code) (rest : Bytes) :
    decodeFrom none (b :: bytes ++ rest) = Char.ofNat code :: decodeFrom none rest := by
  rw [List.cons_append, decodeFrom, feed, begun]
  exact completes.decodeFrom rest

variable {n : Nat}

theorem start_two (low : 128 ≤ n) (high : n < 2048) :
    start (UInt8.ofNat (n / 64 % 32 + 192)) = ([], some ⟨1, 0x80, 0xbf, n / 64⟩) := by
  have lead : (n / 64 % 32 + 192) % 32 = n / 64 := by omega
  rw [start_eq, toNat_byte (by omega), if_neg (by omega), if_neg (by omega), if_pos (by omega), lead]

/-- No character is written in three bytes if two would do, and the surrogates are no characters. -/
theorem start_three (low : 2048 ≤ n) (high : n < 65536) (valid : n < 0xd800 ∨ 0xdfff < n) :
    ∃ c, start (UInt8.ofNat (n / 4096 % 16 + 224)) = ([], some c) ∧ c.needed = 2 ∧ c.value = n / 4096 ∧
      c.Admits (n / 64) := by
  rw [start_eq, toNat_byte (by omega), if_neg (by omega), if_neg (by omega), if_neg (by omega)]
  by_cases least : n / 4096 = 0
  · refine ⟨_, if_pos (by omega), rfl, least.symm, ?_⟩
    simp only [Begun.Admits, UInt8.reduceToNat]
    omega
  · rw [if_neg (by omega)]
    by_cases surrogates : n / 4096 = 13
    · refine ⟨_, if_pos (by omega), rfl, surrogates.symm, ?_⟩
      simp only [Begun.Admits, UInt8.reduceToNat]
      omega
    · have lead : (n / 4096 % 16 + 224) % 16 = n / 4096 := by omega
      rw [if_neg (by omega), if_pos (by omega), lead]
      exact ⟨_, rfl, rfl, rfl, Begun.admits_later _ _ _⟩

/-- No character is written in four bytes if three would do, and there are none from `0x110000` on. -/
theorem start_four (low : 65536 ≤ n) (high : n < 0x110000) :
    ∃ c, start (UInt8.ofNat (n / 262144 % 8 + 240)) = ([], some c) ∧ c.needed = 3 ∧ c.value = n / 262144 ∧
      c.Admits (n / 4096) := by
  rw [start_eq, toNat_byte (by omega), if_neg (by omega), if_neg (by omega), if_neg (by omega), if_neg (by omega),
    if_neg (by omega), if_neg (by omega)]
  by_cases least : n / 262144 = 0
  · refine ⟨_, if_pos (by omega), rfl, least.symm, ?_⟩
    simp only [Begun.Admits, UInt8.reduceToNat]
    omega
  · rw [if_neg (by omega)]
    by_cases greatest : n / 262144 = 4
    · refine ⟨_, (if_neg (by omega)).trans (if_pos (by omega)), rfl, greatest.symm, ?_⟩
      simp only [Begun.Admits, UInt8.reduceToNat]
      omega
    · have lead : (n / 262144 % 8 + 240) % 8 = n / 262144 := by omega
      rw [if_pos (by omega), lead]
      exact ⟨_, rfl, rfl, rfl, Begun.admits_later _ _ _⟩

theorem decodeFrom_encodeChar (c : Char) (rest : Bytes) :
    decodeFrom none (String.utf8EncodeChar c ++ rest) = c :: decodeFrom none rest := by
  have valid : c.val.toNat < 0xd800 ∨ 0xdfff < c.val.toNat ∧ c.val.toNat < 0x110000 := c.valid
  have known : Char.ofNat c.val.toNat = c := Char.ofNat_toNat c
  rw [String.utf8EncodeChar]
  generalize c.val.toNat = n at *
  by_cases one : n ≤ 127
  · rw [if_pos one, List.singleton_append, decodeFrom, feed, start_eq, toNat_byte (by omega), if_pos (by omega), known]
    rfl
  · rw [if_neg one]
    by_cases two : n ≤ 2047
    · have completes := Completes.last (c := ⟨1, 0x80, 0xbf, n / 64⟩) (n := n) rfl (Begun.admits_later _ _ _)
      have code : n / 64 * 64 + n % 64 = n := Nat.div_add_mod' n 64
      rw [if_pos two]
      refine (decodeFrom_of_start (start_two (by omega) (by omega)) completes rest).trans ?_
      rw [code, known]
    · rw [if_neg two]
      by_cases three : n ≤ 65535
      · obtain ⟨c, begun, needed, value, admits⟩ := start_three (n := n) (by omega) (by omega) (by omega)
        have completes := Completes.more needed admits (.last (n := n) rfl (Begun.admits_later _ _ _))
        have code : (c.value * 64 + n / 64 % 64) * 64 + n % 64 = n := by omega
        rw [if_pos three]
        refine (decodeFrom_of_start begun completes rest).trans ?_
        rw [code, known]
      · obtain ⟨c, begun, needed, value, admits⟩ := start_four (n := n) (by omega) (by omega)
        have completes := Completes.more needed admits
          (.more rfl (Begun.admits_later _ _ (n / 64)) (.last (n := n) rfl (Begun.admits_later _ _ _)))
        have code : ((c.value * 64 + n / 4096 % 64) * 64 + n / 64 % 64) * 64 + n % 64 = n := by omega
        rw [if_neg three]
        refine (decodeFrom_of_start begun completes rest).trans ?_
        rw [code, known]

@[simp] theorem encode_cons (c : Char) (text : List Char) : encode (c :: text) = String.utf8EncodeChar c ++ encode text :=
  List.flatMap_cons

@[simp] theorem encode_append (first rest : List Char) : encode (first ++ rest) = encode first ++ encode rest :=
  List.flatMap_append

/-- A text is decoded from its bytes. -/
@[simp] theorem decode_encode (text : List Char) : decode (encode text) = text := by
  induction text with
  | nil => rfl
  | cons c text ih =>
    rw [encode_cons, decode, decodeFrom_encodeChar]
    exact congrArg (c :: ·) ih

end Utf8

end CoopScript
