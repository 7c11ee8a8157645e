import CoopScript.Proofs.FormatRounds

/-! What a format comes to. Its pieces are read one after another, each by a round of its own, and each piece takes
the values and writes the text that it would in any other format. So the loop comes to its end, it only stops where
a character begins, and the text of a format is made up of the texts of its pieces. -/

namespace CoopScript

namespace Utf8

theorem foldl_utf8Size (text : List Char) (total : Nat) :
    text.foldl (fun total c => total + c.utf8Size) total = total + size text := by
  induction text generalizing total with
  | nil => rfl
  | cons c text ih =>
    rw [size, List.foldl_cons, List.foldl_cons, ih, ih, Nat.zero_add, Nat.add_assoc]

@[simp] theorem size_nil : size [] = 0 := rfl

@[simp] theorem size_cons (c : Char) (text : List Char) : size (c :: text) = c.utf8Size + size text := by
  rw [size, List.foldl_cons, Nat.zero_add, foldl_utf8Size]

@[simp] theorem size_append (first rest : List Char) : size (first ++ rest) = size first + size rest := by
  rw [size, List.foldl_append, foldl_utf8Size]
  rfl

theorem utf8ByteSize_ofList (text : List Char) : (String.ofList text).utf8ByteSize = size text := by
  induction text with
  | nil => rfl
  | cons c text ih => rw [String.ofList_cons, String.utf8ByteSize_append, String.utf8ByteSize_singleton, ih, size_cons]

/-- After any number of whole characters another begins, or the text is over. -/
theorem isValid_size {s : String} {read rest : List Char} (parts : s.toList = read ++ rest) :
    String.Pos.Raw.IsValid s ⟨size read⟩ := by
  refine String.Pos.Raw.isValid_iff_exists_append.mpr ⟨.ofList read, .ofList rest, ?_, ?_⟩
  · rw [← String.ofList_append, ← parts, String.ofList_toList]
  · rw [String.Pos.Raw.ext_iff, String.byteIdx_rawEndPos, utf8ByteSize_ofList]

end Utf8

namespace Formatting

open Arguments

/-- What has been read of a format between two states. -/
structure Reads (s : Formatting) (read : List Char) (t : Formatting) : Prop where
  rest : s.rest = read ++ t.rest
  position : t.position = s.position + Utf8.size read
  values : t.args.values = s.args.values

/-- The loop comes to this after a number of rounds and a last one. -/
inductive Laps : Formatting → Nat → Except ScriptError Next → Prop where
  | ended {s next} (ended : s.round = .ok (.inr next)) : Laps s 0 (.ok next)
  | failed {s e} (failed : s.round = .error e) : Laps s 0 (.error e)
  | on {s t n result} (went : s.round = .ok (.inl t)) (rest : Laps t n result) : Laps s (n + 1) result

/-- From one round to the next, which may have to wait for an answer. -/
inductive Moves (s : Formatting) : Formatting → Prop where
  | on {t} (went : s.round = .ok (.inl t)) : Moves s t
  | answered {t u v answer} (asked : s.round = .ok (.inr (.textOf v t))) (collected : t.collect answer = .ok u) :
      Moves s u

/-- What can be come to in a number of rounds, whatever is answered. -/
inductive Visits : Formatting → Nat → Formatting → Prop where
  | here {s} : Visits s 0 s
  | after {s t u n} (moves : s.Moves t) (rest : Visits t n u) : Visits s (n + 1) u

/-- What the formatting comes to if each value is told by itself. -/
inductive Settles : Formatting → Except ScriptError String → Prop where
  | finished {s text} (ended : s.round = .ok (.inr (.finished text))) : Settles s (.ok text)
  | failed {s e} (failed : s.round = .error e) : Settles s (.error e)
  | on {s t result} (went : s.round = .ok (.inl t)) (rest : Settles t result) : Settles s result
  | told {s t u v result} (asked : s.round = .ok (.inr (.textOf v t))) (collected : t.collect (.str v.display) = .ok u)
      (rest : Settles u result) : Settles s result

/-- The text of a value under a directive, if the value is told by itself. -/
def shown (d : Directive) : String ⊕ Value → String
  | .inl text => text
  | .inr v => d.text v.display

/-- The directives of a format, up to one that cannot be read. -/
def directives (format : List Char) : List Directive :=
  match format with
  | [] => []
  | '%' :: '%' :: rest => directives rest
  | '%' :: text =>
    match _read : Directive.read text with
    | .ok (d, rest) => d :: directives rest
    | .error _ => []
  | _ :: rest => directives rest
termination_by format.length
decreasing_by
  · exact Nat.lt_succ_of_lt (Nat.lt_succ_self _)
  · exact Nat.lt_succ_of_lt (Directive.length_read _read)
  · exact Nat.lt_succ_self _

/-- A format writes a text with the first of these values, and leaves others. -/
inductive Yields : List Char → List Value → String → List Value → Prop where
  | nil {left} : Yields [] left "" left
  | percent {f a o b} (rest : Yields f a o b) : Yields ('%' :: '%' :: f) a ("%" ++ o) b
  | plain {c f a o b} (plain : c ≠ '%') (rest : Yields f a o b) : Yields (c :: f) a (String.singleton c ++ o) b
  | directive {sp f v converted a o b} (valid : Spelling.Valid sp) (suits : Suits v sp.conversion)
      (takes : Takes (convert sp.directive) v converted) (rest : Yields f a o b) :
      Yields ('%' :: (sp.text ++ f)) (v :: a) (shown sp.directive converted ++ o) b

variable {s t u : Formatting} {n fuel : Nat} {result : Except ScriptError Next} {next : Next} {v answer : Value}
  {d : Directive} {sp : Spelling} {read rest f g : List Char} {a b c : List Value} {o p : String}
  {converted : String ⊕ Value} {outcome : Formatting ⊕ Next}

section Progress

/-- Where a round has left off, unless it has finished. -/
def state? : Formatting ⊕ Next → Option Formatting
  | .inl t | .inr (.textOf _ t) => some t
  | .inr (.finished _) => none

theorem Reads.trans {more : List Char} (reads : s.Reads read t) (later : t.Reads more u) : s.Reads (read ++ more) u where
  rest := by rw [reads.rest, later.rest, List.append_assoc]
  position := by rw [later.position, reads.position, Utf8.size_append, Nat.add_assoc]
  values := later.values.trans reads.values

theorem Reads.shorter (reads : s.Reads read t) (some : read ≠ []) : t.rest.length < s.rest.length := by
  rw [reads.rest, List.length_append]
  have positive := List.length_pos_iff.mpr some
  omega

theorem reads_past (here : s.rest = '%' :: (sp.text ++ rest))
    (left : t ∈ state? (s.past d (sp.text ++ rest) rest s.args.moved converted)) : s.Reads ('%' :: sp.text) t := by
  have size : Utf8.size (sp.text ++ rest) - Utf8.size rest = Utf8.size sp.text := by
    rw [Utf8.size_append, Nat.add_sub_cancel]
  have position : s.position + 1 + (Utf8.size (sp.text ++ rest) - Utf8.size rest) =
      s.position + Utf8.size ('%' :: sp.text) := by
    rw [size, Utf8.size_cons, Nat.add_assoc]
    rfl
  cases converted <;> cases left <;> exact ⟨here, position, rfl⟩

/-- A round reads at least a character, and the position is the number of bytes that have been read. -/
theorem reads_round (went : s.round = .ok outcome) (left : t ∈ state? outcome) : ∃ read, read ≠ [] ∧ s.Reads read t := by
  have turn := s.turn_round
  rw [went] at turn
  cases turn with
  | finished => cases left
  | percent here =>
    cases left
    exact ⟨['%', '%'], by simp, here, rfl, rfl⟩
  | @copied c rest here plain =>
    cases left
    exact ⟨[c], by simp, here, by rw [Utf8.size_cons, Utf8.size_nil, Nat.add_zero], rfl⟩
  | passed here _ _ read suits _ =>
    obtain ⟨sp, _, rfl, -⟩ := spelling_of_read read suits.letter
    exact ⟨'%' :: sp.text, by simp, reads_past here left⟩

theorem reads_collect (collected : s.collect answer = .ok t) : s.Reads [] t := by
  rw [collect] at collected
  split at collected
  · cases collected
    exact ⟨rfl, rfl, rfl⟩
  · split at collected <;> cases collected
    exact ⟨rfl, rfl, rfl⟩

theorem Moves.reads (moves : s.Moves t) : ∃ read, read ≠ [] ∧ s.Reads read t := by
  cases moves with
  | on went => exact reads_round went rfl
  | answered asked collected =>
    obtain ⟨read, some, reads⟩ := reads_round asked rfl
    exact ⟨read ++ [], by simpa using some, reads.trans (reads_collect collected)⟩

theorem Visits.reads (visits : s.Visits n t) : ∃ read, n ≤ read.length ∧ s.Reads read t := by
  induction visits with
  | here => exact ⟨[], Nat.le_refl 0, rfl, rfl, rfl⟩
  | after moves _ ih =>
    obtain ⟨first, some, reads⟩ := moves.reads
    obtain ⟨more, long, later⟩ := ih
    refine ⟨first ++ more, ?_, reads.trans later⟩
    rw [List.length_append, Nat.add_comm]
    exact Nat.add_le_add (List.length_pos_iff.mpr some) long

/-- A run of the loop is the rounds that it makes, if the fuel allows one more. -/
theorem Laps.run (laps : s.Laps n result) (enough : n < fuel) : s.run fuel = result := by
  induction laps generalizing fuel with
  | ended ended =>
    obtain ⟨fuel, rfl⟩ := Nat.exists_eq_add_one.mpr enough
    rw [run_succ, ended]
    rfl
  | failed failed =>
    obtain ⟨fuel, rfl⟩ := Nat.exists_eq_add_one.mpr enough
    rw [run_succ, failed]
    rfl
  | @on s t n result went _ ih =>
    obtain ⟨fuel, rfl⟩ := Nat.exists_eq_add_one.mpr (Nat.zero_lt_of_lt enough)
    rw [run_succ, went]
    exact ih (Nat.lt_of_succ_lt_succ enough)

theorem laps_total (s : Formatting) : ∃ n result, n ≤ s.rest.length ∧ s.Laps n result := by
  match went : s.round with
  | .error e => exact ⟨0, _, Nat.zero_le _, .failed went⟩
  | .ok (.inr next) => exact ⟨0, _, Nat.zero_le _, .ended went⟩
  | .ok (.inl t) =>
    obtain ⟨read, some, reads⟩ := reads_round went rfl
    have shorter := reads.shorter some
    obtain ⟨n, result, short, laps⟩ := laps_total t
    exact ⟨n + 1, result, Nat.lt_of_le_of_lt short shorter, .on went laps⟩
termination_by s.rest.length

/-- The loop is over after at most as many rounds as there are characters and a last one. -/
theorem exists_laps (s : Formatting) : ∃ n ≤ s.rest.length, s.Laps n s.advance := by
  obtain ⟨n, result, short, laps⟩ := laps_total s
  have same : s.advance = result := laps.run (Nat.lt_succ_of_le short)
  exact ⟨n, short, same ▸ laps⟩

theorem settles_total (s : Formatting) : ∃ outcome, s.Settles outcome := by
  match went : s.round with
  | .error e => exact ⟨_, .failed went⟩
  | .ok (.inr (.finished text)) => exact ⟨_, .finished went⟩
  | .ok (.inl t) =>
    obtain ⟨read, some, reads⟩ := reads_round went rfl
    have shorter := reads.shorter some
    obtain ⟨outcome, settles⟩ := settles_total t
    exact ⟨outcome, .on went settles⟩
  | .ok (.inr (.textOf v t)) =>
    have collects : ∃ u, t.collect (.str v.display) = .ok u := by
      rw [collect]
      cases t.pending <;> exact ⟨_, rfl⟩
    obtain ⟨u, collected⟩ := collects
    obtain ⟨read, some, reads⟩ := (Moves.answered went collected).reads
    have shorter := reads.shorter some
    obtain ⟨outcome, settles⟩ := settles_total u
    exact ⟨outcome, .told went collected settles⟩
termination_by s.rest.length

theorem advance_failed {e : ScriptError} (failed : s.round = .error e) : s.advance = .error e :=
  (Laps.failed failed).run (Nat.succ_pos _)

theorem advance_ended (ended : s.round = .ok (.inr next)) : s.advance = .ok next :=
  (Laps.ended ended).run (Nat.succ_pos _)

theorem advance_on (went : s.round = .ok (.inl t)) : s.advance = t.advance := by
  obtain ⟨n, short, laps⟩ := exists_laps t
  obtain ⟨read, some, reads⟩ := reads_round went rfl
  exact (Laps.on went laps).run (Nat.succ_lt_succ (Nat.lt_of_le_of_lt short (reads.shorter some)))

end Progress

section Texts

/-- Formats follow one another with what the first leaves. -/
theorem Yields.append (first : Yields f a o b) (second : Yields g b p c) : Yields (f ++ g) a (o ++ p) c := by
  induction first with
  | nil => rwa [List.nil_append, String.empty_append]
  | percent _ ih =>
    rw [String.append_assoc]
    exact .percent (ih second)
  | plain plain _ ih =>
    rw [String.append_assoc]
    exact .plain plain (ih second)
  | directive valid suits takes _ ih =>
    rw [String.append_assoc, List.cons_append, List.append_assoc]
    exact .directive valid suits takes (ih second)

/-- Values that a format leaves make no difference to it. -/
theorem Yields.with_more (yields : Yields f a o b) (more : List Value) : Yields f (a ++ more) o (b ++ more) := by
  induction yields with
  | nil => exact .nil
  | percent _ ih => exact .percent ih
  | plain plain _ ih => exact .plain plain ih
  | directive valid suits takes _ ih => exact .directive valid suits takes ih

/-- Each directive takes one value. -/
theorem Yields.count (yields : Yields f a o b) : a.length = (directives f).length + b.length := by
  induction yields with
  | nil => rw [directives, List.length_nil, Nat.zero_add]
  | percent _ ih => rwa [directives]
  | plain plain _ ih =>
    rw [directives]
    · exact ih
    · rintro rest rfl
      exact absurd rfl plain
    · exact plain
  | @directive sp f _ _ _ _ _ valid _ _ _ ih =>
    have one : directives ('%' :: (sp.text ++ f)) = sp.directive :: directives f := by
      rw [directives]
      · split
        · next read =>
          cases (valid.read f).symm.trans read
          rfl
        · next failed => cases (valid.read f).symm.trans failed
      · exact valid.single f
    rw [one, List.length_cons, List.length_cons, ih, Nat.add_right_comm]

/-- The arguments that have not been taken. -/
def left (s : Formatting) : List Value := s.args.values.drop s.args.position

theorem left_of_isNext (given : s.args.IsNext v) : s.left = v :: s.args.moved.values.drop s.args.moved.position := by
  obtain ⟨inside, here⟩ := List.getElem?_eq_some_iff.mp given
  rw [left, List.drop_eq_getElem_cons inside, here]
  rfl

/-- What is yielded is what the formatting settles on. -/
theorem Yields.settles (yields : Yields f a o b) (here : s.rest = f) (given : s.left = a) :
    s.Settles (.ok (s.output ++ o)) := by
  induction yields generalizing s with
  | nil =>
    rw [String.append_empty]
    exact .finished (round_over here)
  | percent _ ih =>
    rw [← String.append_assoc]
    exact .on (round_percent here) (ih rfl given)
  | plain plain _ ih =>
    rw [← String.append_assoc, String.append_singleton]
    exact .on (round_plain here plain) (ih rfl given)
  | @directive sp f v converted a o b valid suits takes _ ih =>
    have next : s.args.IsNext v := by
      rw [IsNext, ← List.head?_drop]
      exact congrArg List.head? given
    have after : s.args.moved.values.drop s.args.moved.position = a :=
      (List.cons.inj ((left_of_isNext next).symm.trans given)).2
    obtain ⟨made, same, went⟩ := round_spelling here valid next suits
    cases (takes s.args next).symm.trans same
    rw [← String.append_assoc]
    cases converted with
    | inl text => exact .on went (ih rfl after)
    | inr v => exact .told went rfl (ih rfl after)

/-- Where a round leads if a value is told by itself. -/
def onward? : Formatting ⊕ Next → Option Formatting
  | .inl t => some t
  | .inr (.textOf v t) => (t.collect (.str v.display)).toOption
  | .inr (.finished _) => none

/-- What a round writes comes before all that is yielded later. -/
theorem round_yields (went : s.round = .ok outcome) (onward : t ∈ onward? outcome) :
    ∃ x, t.output = s.output ++ x ∧ ∀ {o b}, Yields t.rest t.left o b → Yields s.rest s.left (x ++ o) b := by
  have turn := s.turn_round
  rw [went] at turn
  cases turn with
  | finished => cases onward
  | percent here =>
    cases onward
    refine ⟨"%", rfl, fun yields => ?_⟩
    rw [here]
    exact .percent yields
  | @copied c rest here plain =>
    cases onward
    refine ⟨.singleton c, String.append_singleton.symm, fun yields => ?_⟩
    rw [here]
    exact .plain plain yields
  | @passed _ _ _ _ converted here _ given read suits takes =>
    obtain ⟨sp, valid, rfl, rfl⟩ := spelling_of_read read suits.letter
    rw [here, left_of_isNext given]
    refine ⟨shown sp.directive converted, ?_, fun yields => .directive valid suits takes ?_⟩
    · cases converted <;> cases onward <;> rfl
    · cases converted <;> cases onward <;> exact yields

/-- The loop finishes at the end of the format only. -/
theorem over_of_finished {text : String} (ended : s.round = .ok (.inr (.finished text))) :
    s.rest = [] ∧ text = s.output := by
  have turn := s.turn_round
  rw [ended] at turn
  generalize finished : Sum.inr (Next.finished text) = outcome at turn
  cases turn with
  | finished done =>
    cases finished
    exact ⟨done, rfl⟩
  | percent | copied => cases finished
  | @passed _ _ _ _ converted => cases converted <;> cases finished

theorem Settles.yields {text : String} (settles : s.Settles (.ok text)) :
    ∃ o b, Yields s.rest s.left o b ∧ text = s.output ++ o := by
  have later {s t : Formatting} {outcome : Formatting ⊕ Next} (went : s.round = .ok outcome)
      (onward : t ∈ onward? outcome) (rest : ∃ o b, Yields t.rest t.left o b ∧ text = t.output ++ o) :
      ∃ o b, Yields s.rest s.left o b ∧ text = s.output ++ o := by
    obtain ⟨x, written, before⟩ := round_yields went onward
    obtain ⟨o, b, yields, rfl⟩ := rest
    exact ⟨x ++ o, b, before yields, by rw [written, String.append_assoc]⟩
  generalize delivered : Except.ok text = outcome at settles
  induction settles with
  | @finished s text ended =>
    cases delivered
    obtain ⟨done, rfl⟩ := over_of_finished ended
    rw [done]
    exact ⟨"", _, .nil, String.append_empty.symm⟩
  | failed => cases delivered
  | on went _ ih => exact later went rfl (ih delivered)
  | told asked collected _ ih =>
    refine later asked ?_ (ih delivered)
    rw [onward?, collected]
    rfl

end Texts

end Formatting

end CoopScript
