import CoopScript.Proofs.DirectiveSpelling

/-! Formatting round by round. A round copies a character, writes a percent sign for two, or replaces a directive
by an argument; it reads exactly what it has dealt with, so the position is always where a character begins and
what is left gets less. What a directive takes from the arguments is the next of them alone, so it is accepted
or refused by its spelling, and then by that one value. -/

namespace CoopScript

namespace Arguments

/-- The arguments when one more has been read. -/
def moved (a : Arguments) : Arguments := { a with position := a.position + 1 }

/-- A value is next. -/
def IsNext (a : Arguments) (v : Value) : Prop := a.values[a.position]? = some v

/-- A reader that takes a value if it is next, and makes this of it. -/
def Takes {α : Type} (reader : ArgumentsM α) (v : Value) (x : α) : Prop :=
  ∀ a : Arguments, a.IsNext v → reader a = .ok (x, a.moved)

/-- A reader that fails if the value is next. -/
def Refuses {α : Type} (reader : ArgumentsM α) (v : Value) : Prop :=
  ∀ a : Arguments, a.IsNext v → ∃ e, reader a = .error e

variable {α β : Type} {reader : ArgumentsM α} {v : Value} {x : α} {y : β}

theorem Takes.bind (takes : Takes reader v x) {next : α → ArgumentsM β}
    (rest : ∀ a : Arguments, next x a = .ok (y, a)) : Takes (reader >>= next) v y := by
  intro a found
  change Except.bind (reader a) (fun r => next r.1 r.2) = _
  rw [takes a found]
  exact rest a.moved

theorem Refuses.bind (refuses : Refuses reader v) (next : α → ArgumentsM β) : Refuses (reader >>= next) v := by
  intro a found
  obtain ⟨e, failed⟩ := refuses a found
  refine ⟨e, ?_⟩
  change Except.bind (reader a) (fun r => next r.1 r.2) = _
  rw [failed]
  rfl

theorem Takes.bind_refused (takes : Takes reader v x) {next : α → ArgumentsM β}
    (rest : ∀ a : Arguments, ∃ e, next x a = .error e) : Refuses (reader >>= next) v := by
  intro a found
  obtain ⟨e, failed⟩ := rest a.moved
  refine ⟨e, ?_⟩
  change Except.bind (reader a) (fun r => next r.1 r.2) = _
  rw [takes a found]
  exact failed

theorem takes_nextAny (v : Value) : Takes nextAny v v := fun _ found => nextAny_of_some found

theorem takes_nextOrNil (v : Value) : Takes nextOrNil v v := by
  intro a found
  change Except.ok (a.values[a.position]?.getD .nil, a.moved) = _
  rw [show a.values[a.position]? = some v from found]
  rfl

theorem takes_nextInt {i : Int64} (whole : v.asInt? = some i) : Takes nextInt v i := by
  refine (takes_nextOrNil v).bind fun a => ?_
  simp only [whole]
  rfl

theorem refuses_nextInt (missing : v.asInt? = none) : Refuses nextInt v := by
  refine (takes_nextOrNil v).bind_refused fun a => ?_
  simp only [missing]
  cases v.asFloat?.isSome <;> exact ⟨_, rfl⟩

theorem takes_nextFloat {f : Binary64} (number : v.asFloat? = some f) : Takes nextFloat v f := by
  refine (takes_nextOrNil v).bind fun a => ?_
  simp only [number]
  rfl

theorem refuses_nextFloat (missing : v.asFloat? = none) : Refuses nextFloat v := by
  refine (takes_nextOrNil v).bind_refused fun a => ?_
  simp only [missing]
  exact ⟨_, rfl⟩

end Arguments

namespace Formatting

open Arguments

/-- The values that a conversion letter can be given. -/
inductive Suits (v : Value) : Char → Prop where
  | integer {c : Char} (letter : c ∈ ['d', 'i', 'u', 'o', 'x', 'X']) (whole : v.asInt?.isSome) : Suits v c
  | code {i : Int64} (whole : v.asInt? = some i) (valid : 0 ≤ i.toInt ∧ i.toInt.toNat.isValidChar) : Suits v 'c'
  | float {c : Char} (letter : c ∈ ['e', 'E', 'f', 'F', 'g', 'G']) (number : v.asFloat?.isSome) : Suits v c
  | literal (written : (literal? v).isSome) : Suits v 'q'
  | text : Suits v 's'

variable {d : Directive} {v : Value}

theorem Suits.letter {c : Char} (suits : Suits v c) : c ∈ conversions := by
  cases suits with
  | integer letter =>
    have subset : ['d', 'i', 'u', 'o', 'x', 'X'] ⊆ conversions := by simp [conversions]
    exact subset letter
  | float letter =>
    have subset : ['e', 'E', 'f', 'F', 'g', 'G'] ⊆ conversions := by simp [conversions]
    exact subset letter
  | code | literal | text => decide

theorem convert_integer (letter : d.conversion ∈ ['d', 'i', 'u', 'o', 'x', 'X']) :
    ∃ shown : Int64 → String, convert d = nextInt >>= fun i => pure (.inl (shown i)) := by
  simp only [List.mem_cons, List.not_mem_nil, or_false] at letter
  rcases letter with letter | letter | letter | letter | letter | letter
  · exact ⟨d.int, by simp only [convert, letter]⟩
  · exact ⟨d.int, by simp only [convert, letter]⟩
  all_goals exact ⟨d.word, by simp only [convert, letter]⟩

theorem convert_float (letter : d.conversion ∈ ['e', 'E', 'f', 'F', 'g', 'G']) :
    convert d = nextFloat >>= fun x => pure (.inl (d.float x)) := by
  simp only [List.mem_cons, List.not_mem_nil, or_false] at letter
  rcases letter with letter | letter | letter | letter | letter | letter <;> simp only [convert, letter]

/-- A letter that is no conversion is told apart only here, after all else of the directive has been read. -/
theorem convert_other (other : d.conversion ∉ conversions) :
    convert d = throw (.invalidDirective (some d.conversion)) := by
  have different (c : Char) (member : c ∈ conversions) : d.conversion ≠ c := by
    intro same
    exact other (same ▸ member)
  unfold convert
  split
  case h_16 => rfl
  all_goals
    next letter => exact absurd letter (different _ (by decide))

/-- What comes of a directive depends on the next argument alone. -/
theorem takes_convert (suits : Suits v d.conversion) : ∃ converted, Takes (convert d) v converted := by
  generalize letter : d.conversion = c at suits
  cases suits with
  | integer kind whole =>
    obtain ⟨i, whole⟩ := Option.isSome_iff_exists.mp whole
    obtain ⟨shown, same⟩ := convert_integer (letter ▸ kind)
    rw [same]
    exact ⟨_, (takes_nextInt whole).bind fun _ => rfl⟩
  | @code i whole valid =>
    refine ⟨.inl (d.pad "" (Char.ofNat i.toInt.toNat).toString false), ?_⟩
    simp only [convert, letter]
    refine (takes_nextInt whole).bind fun a => ?_
    rw [if_pos (by simpa using valid)]
    rfl
  | float kind number =>
    obtain ⟨x, number⟩ := Option.isSome_iff_exists.mp number
    rw [convert_float (letter ▸ kind)]
    exact ⟨_, (takes_nextFloat number).bind fun _ => rfl⟩
  | literal written =>
    obtain ⟨text, written⟩ := Option.isSome_iff_exists.mp written
    refine ⟨.inl text, ?_⟩
    simp only [convert, letter]
    refine (takes_nextAny v).bind fun a => ?_
    rw [written]
    rfl
  | text =>
    cases told : v.asText? with
    | some text =>
      refine ⟨.inl (d.text text), ?_⟩
      simp only [convert, letter]
      refine (takes_nextAny v).bind fun a => ?_
      rw [told]
      rfl
    | none =>
      refine ⟨.inr v, ?_⟩
      simp only [convert, letter]
      refine (takes_nextAny v).bind fun a => ?_
      rw [told]
      rfl

/-- A directive fails for its letter, or for an argument that does not suit it. -/
theorem refuses_convert (unsuited : ¬Suits v d.conversion) : Refuses (convert d) v := by
  by_cases known : d.conversion ∈ conversions
  · have kinds : d.conversion ∈ ['d', 'i', 'u', 'o', 'x', 'X'] ∨ d.conversion ∈ ['e', 'E', 'f', 'F', 'g', 'G'] ∨
        d.conversion = 'c' ∨ d.conversion = 'q' ∨ d.conversion = 's' := by
      simp only [conversions, List.mem_cons, List.not_mem_nil, or_false] at known ⊢
      grind
    rcases kinds with letter | letter | letter | letter | letter
    · obtain ⟨shown, same⟩ := convert_integer letter
      rw [same]
      have missing : v.asInt? = none := Option.not_isSome_iff_eq_none.mp fun whole => unsuited (.integer letter whole)
      exact (refuses_nextInt missing).bind _
    · rw [convert_float letter]
      have missing : v.asFloat? = none := Option.not_isSome_iff_eq_none.mp fun number => unsuited (.float letter number)
      exact (refuses_nextFloat missing).bind _
    · rw [letter] at unsuited
      simp only [convert, letter]
      cases whole : v.asInt? with
      | none => exact (refuses_nextInt whole).bind _
      | some i =>
        have invalid : ¬(0 ≤ i.toInt ∧ i.toInt.toNat.isValidChar) := fun valid => unsuited (.code whole valid)
        refine (takes_nextInt whole).bind_refused fun a => ?_
        rw [if_neg (by simpa using invalid)]
        exact ⟨_, rfl⟩
    · rw [letter] at unsuited
      have missing : literal? v = none := Option.not_isSome_iff_eq_none.mp fun written => unsuited (.literal written)
      simp only [convert, letter]
      refine (takes_nextAny v).bind_refused fun a => ?_
      rw [missing]
      exact ⟨_, rfl⟩
    · rw [letter] at unsuited
      exact absurd .text unsuited
  · rw [convert_other known]
    exact fun a _ => ⟨_, rfl⟩

/-- The state when a directive has been read up to a rest, and converted with the argument. -/
def past (s : Formatting) (d : Directive) (text rest : List Char) (args : Arguments) : String ⊕ Value → Formatting ⊕ Next
  | .inl shown =>
    .inl { s with
      rest, args, output := s.output ++ shown, position := s.position + 1 + (Utf8.size text - Utf8.size rest) }
  | .inr value =>
    .inr (.textOf value { s with
      rest, args, position := s.position + 1 + (Utf8.size text - Utf8.size rest), pending := some d })

/-- What one round of the loop comes to: a state to go on from, or an end. -/
def round (s : Formatting) : Except ScriptError (Formatting ⊕ Next) :=
  match s.rest with
  | [] => .ok (.inr (.finished s.output))
  | '%' :: '%' :: rest => .ok (.inl { s with rest, output := s.output ++ "%", position := s.position + 2 })
  | '%' :: text => do
    if !s.args.hasNext then throw (s.args.bad (s.args.position + 1) .missing)
    let (d, rest) ← Directive.read text
    let (converted, args) ← convert d s.args
    return s.past d text rest args converted
  | c :: rest => .ok (.inl { s with rest, output := s.output.push c, position := s.position + c.utf8Size })

theorem round_over {s : Formatting} (ended : s.rest = []) : s.round = .ok (.inr (.finished s.output)) := by
  rw [round, ended]

theorem round_percent {s : Formatting} {rest : List Char} (here : s.rest = '%' :: '%' :: rest) :
    s.round = .ok (.inl { s with rest, output := s.output ++ "%", position := s.position + 2 }) := by
  rw [round, here]
  rfl

theorem round_directive {s : Formatting} {text : List Char} (here : s.rest = '%' :: text)
    (single : ∀ rest, text ≠ '%' :: rest) : s.round = do
      if !s.args.hasNext then throw (s.args.bad (s.args.position + 1) .missing)
      let (d, rest) ← Directive.read text
      let (converted, args) ← convert d s.args
      return s.past d text rest args converted := by
  rw [round, here]
  split
  · next none => cases none
  · next doubled =>
    cases doubled
    exact absurd rfl (single _)
  · next same =>
    cases same
    rfl
  · next _ other same =>
    cases same
    exact absurd rfl other

theorem round_plain {s : Formatting} {c : Char} {rest : List Char} (here : s.rest = c :: rest) (plain : c ≠ '%') :
    s.round = .ok (.inl { s with rest, output := s.output.push c, position := s.position + c.utf8Size }) := by
  rw [round, here]
  split
  · next none => cases none
  · next doubled =>
    cases doubled
    exact absurd rfl plain
  · next same =>
    cases same
    exact absurd rfl plain
  · next same =>
    cases same
    rfl

/-- The loop is one round after another. -/
theorem run_succ (s : Formatting) (fuel : Nat) :
    s.run (fuel + 1) = s.round >>= fun
      | .inl t => t.run fuel
      | .inr next => .ok next := by
  rw [run]
  split
  · next ended =>
    rw [round_over ended]
    rfl
  · next here =>
    rw [round_percent here]
    rfl
  · next text single here =>
    rw [round_directive here fun rest same => single rest same]
    cases s.args.hasNext with
    | false => rfl
    | true =>
      rcases Directive.read text with e | ⟨d, rest⟩
      · rfl
      · simp only [Bool.not_true, Bool.false_eq_true, if_false, bind, Except.bind, StateT.run]
        rcases convert d s.args with e | ⟨shown | value, args⟩ <;> rfl
  · next c rest single other here =>
    rw [round_plain here other]
    rfl

/-- A directive whose argument has a text of its own is replaced by it. -/
theorem run_directive {s : Formatting} {spec rest : List Char} {d : Directive} {text : String} {args : Arguments}
    (here : s.rest = '%' :: spec) (single : ∀ rest, spec ≠ '%' :: rest) (more : s.args.hasNext = true)
    (read : Directive.read spec = .ok (d, rest)) (converted : convert d s.args = .ok (.inl text, args)) (fuel : Nat) :
    s.run (fuel + 1) = run { s with
      rest, args, output := s.output ++ text, position := s.position + 1 + (Utf8.size spec - Utf8.size rest) } fuel := by
  rw [run_succ, round_directive here single, more]
  simp only [Bool.not_true, Bool.false_eq_true, if_false, read, bind, Except.bind, converted]
  rfl

/-- A format that is a single directive comes to the text of its argument. -/
theorem invoke_directive {format text : String} {spec : List Char} {d : Directive} {v : Value} {args : Arguments}
    (percent : format.toList = '%' :: spec) (single : ∀ rest, spec ≠ '%' :: rest)
    (read : Directive.read spec = .ok (d, [])) (converted : convert d ⟨"format", [.str format, v], 1⟩ = .ok (.inl text, args))
    (w : World) : Builtin.format.invoke [.str format, v] w = (.ok (.ret [.str text]), w) := by
  have started : start [.str format, v] = .ok { rest := '%' :: spec, args := ⟨"format", [.str format, v], 1⟩ } := by
    rw [← percent]
    rfl
  have advanced : advance { rest := '%' :: spec, args := ⟨"format", [.str format, v], 1⟩ } = .ok (.finished text) := by
    rw [advance, run_directive rfl single rfl read converted]
    simp [run]
  have formatted : Builtin.formatOn { rest := '%' :: spec, args := ⟨"format", [.str format, v], 1⟩ } w =
      (.ok (.ret [.str text]), w) := by
    rw [Builtin.formatOn, advanced]
    rfl
  rw [Builtin.invoke, started]
  exact formatted

/-- The ways a round can go. -/
inductive Turn (s : Formatting) : Except ScriptError (Formatting ⊕ Next) → Prop where
  | finished (ended : s.rest = []) : Turn s (.ok (.inr (.finished s.output)))
  | percent {rest : List Char} (here : s.rest = '%' :: '%' :: rest) :
      Turn s (.ok (.inl { s with rest, output := s.output ++ "%", position := s.position + 2 }))
  | copied {c : Char} {rest : List Char} (here : s.rest = c :: rest) (plain : c ≠ '%') :
      Turn s (.ok (.inl { s with rest, output := s.output.push c, position := s.position + c.utf8Size }))
  | missing {text : List Char} (here : s.rest = '%' :: text) (single : ∀ rest, text ≠ '%' :: rest)
      (none : s.args.values[s.args.position]? = none) : Turn s (.error (s.args.bad (s.args.position + 1) .missing))
  | misspelled {text : List Char} {v : Value} {e : ScriptError} (here : s.rest = '%' :: text)
      (single : ∀ rest, text ≠ '%' :: rest) (given : s.args.IsNext v) (failed : Directive.read text = .error e) :
      Turn s (.error e)
  | unsuited {text rest : List Char} {v : Value} {d : Directive} {e : ScriptError} (here : s.rest = '%' :: text)
      (single : ∀ rest, text ≠ '%' :: rest) (given : s.args.IsNext v) (read : Directive.read text = .ok (d, rest))
      (unsuited : ¬Suits v d.conversion) (failed : convert d s.args = .error e) : Turn s (.error e)
  | passed {text rest : List Char} {v : Value} {d : Directive} {converted : String ⊕ Value} (here : s.rest = '%' :: text)
      (single : ∀ rest, text ≠ '%' :: rest) (given : s.args.IsNext v) (read : Directive.read text = .ok (d, rest))
      (suits : Suits v d.conversion) (takes : Takes (convert d) v converted) :
      Turn s (.ok (s.past d text rest s.args.moved converted))

theorem turn_round (s : Formatting) : s.Turn s.round := by
  rw [round]
  split
  · next ended => exact .finished ended
  · next here => exact .percent here
  · next text single here =>
    have single (rest : List Char) : text ≠ '%' :: rest := fun same => single rest same
    cases given : s.args.values[s.args.position]? with
    | none =>
      have missing : s.args.hasNext = false := decide_eq_false (Nat.not_lt_of_le (List.getElem?_eq_none_iff.mp given))
      rw [missing]
      exact .missing here single given
    | some v =>
      have more : s.args.hasNext = true := by
        obtain ⟨inside, _⟩ := List.getElem?_eq_some_iff.mp given
        exact decide_eq_true inside
      simp only [more, Bool.not_true, Bool.false_eq_true, if_false]
      cases read : Directive.read text with
      | error e => exact .misspelled here single given read
      | ok found =>
        obtain ⟨d, rest⟩ := found
        by_cases suits : Suits v d.conversion
        · obtain ⟨converted, takes⟩ := takes_convert suits
          simp only [bind, Except.bind, takes s.args given]
          exact .passed here single given read suits takes
        · obtain ⟨e, failed⟩ := refuses_convert suits s.args given
          simp only [bind, Except.bind, failed]
          exact .unsuited here single given read suits failed
  · next c rest single doubled here =>
    exact .copied here doubled

section Acceptance

variable {s : Formatting} {text rest : List Char} {sp : Spelling}

/-- A valid spelling is replaced by an argument that suits it, and reading goes on right after its letter. -/
theorem round_spelling (here : s.rest = '%' :: (sp.text ++ rest)) (valid : sp.Valid) (given : s.args.IsNext v)
    (suits : Suits v sp.conversion) : ∃ converted, convert sp.directive s.args = .ok (converted, s.args.moved) ∧
      s.round = .ok (s.past sp.directive (sp.text ++ rest) rest s.args.moved converted) := by
  obtain ⟨converted, takes⟩ := takes_convert (d := sp.directive) suits
  have more : s.args.hasNext = true := decide_eq_true (List.getElem?_eq_some_iff.mp given).1
  refine ⟨converted, takes s.args given, ?_⟩
  rw [round_directive here (valid.single rest), valid.read rest, more]
  simp only [Bool.not_true, Bool.false_eq_true, if_false, bind, Except.bind, takes s.args given]
  rfl

/-- What starts with no valid spelling is no directive, whatever the argument. -/
theorem round_unspelled (here : s.rest = '%' :: text) (single : ∀ rest, text ≠ '%' :: rest) (given : s.args.IsNext v)
    (unspelled : ∀ (sp : Spelling) rest, sp.Valid → text ≠ sp.text ++ rest) :
    ∃ e, DirectiveFault e ∧ s.round = .error e := by
  have more : s.args.hasNext = true := decide_eq_true (List.getElem?_eq_some_iff.mp given).1
  rw [round_directive here single, more]
  simp only [Bool.not_true, Bool.false_eq_true, if_false, bind, Except.bind]
  cases read : Directive.read text with
  | error e => exact ⟨e, read_error read, rfl⟩
  | ok found =>
    obtain ⟨d, rest⟩ := found
    have other : d.conversion ∉ conversions := by
      intro letter
      obtain ⟨sp, valid, same, -⟩ := spelling_of_read read letter
      exact unspelled sp rest valid same
    refine ⟨_, .invalidDirective (some d.conversion), ?_⟩
    simp only [convert_other other]
    rfl

/-- A text after a percent sign is accepted as a directive for an argument if and only if it starts with a valid
spelling that the argument suits. It means what is written, a single argument is taken, and the loop goes on right
after the conversion letter. -/
theorem directive_accepted_iff (here : s.rest = '%' :: text) (single : ∀ rest, text ≠ '%' :: rest)
    (given : s.args.IsNext v) :
    (∀ fuel, s.run (fuel + 1) = s.round >>= fun
      | .inl t => t.run fuel
      | .inr next => .ok next) ∧
    ((∃ next, s.round = .ok next) ↔
      ∃ (sp : Spelling) (rest : List Char), sp.Valid ∧ text = sp.text ++ rest ∧ Suits v sp.conversion) ∧
    (∀ (sp : Spelling) rest, sp.Valid → text = sp.text ++ rest → Suits v sp.conversion →
      ∃ converted, convert sp.directive s.args = .ok (converted, s.args.moved) ∧
        s.round = .ok (s.past sp.directive text rest s.args.moved converted)) ∧
    ((∀ (sp : Spelling) rest, sp.Valid → text ≠ sp.text ++ rest) → ∃ e, DirectiveFault e ∧ s.round = .error e) := by
  have spelled (sp rest) (valid : Spelling.Valid sp) (same : text = sp.text ++ rest) (suits : Suits v sp.conversion) :
      ∃ converted, convert sp.directive s.args = .ok (converted, s.args.moved) ∧
        s.round = .ok (s.past sp.directive text rest s.args.moved converted) := by
    subst same
    exact round_spelling here valid given suits
  refine ⟨run_succ s, ⟨?_, ?_⟩, spelled, round_unspelled here single given⟩
  · rintro ⟨next, accepted⟩
    have turn := s.turn_round
    rw [accepted] at turn
    cases turn with
    | finished ended => cases here.symm.trans ended
    | percent doubled =>
      cases here.symm.trans doubled
      exact absurd rfl (single _)
    | copied other plain =>
      cases here.symm.trans other
      exact absurd rfl plain
    | passed found _ taken read suits _ =>
      cases here.symm.trans found
      cases given.symm.trans taken
      obtain ⟨sp, valid, same, rfl⟩ := spelling_of_read read suits.letter
      exact ⟨sp, _, valid, same, suits⟩
  · rintro ⟨sp, rest, valid, same, suits⟩
    obtain ⟨converted, -, accepted⟩ := spelled sp rest valid same suits
    exact ⟨_, accepted⟩

/-- A directive that is followed by a character of two bytes. -/
theorem directive_accepted_iff_signed :
    ∃ next, round { rest := ['%', '+', '5', 'd', 'é'], args := ⟨"format", [.str "%+5dé", .int 7], 1⟩ } = .ok next := by
  have valid : Spelling.Valid ⟨[.plus], ['5'], none, 'd'⟩ := by constructor <;> simp [conversions]
  have suits : Suits (.int 7) 'd' := .integer (by decide) rfl
  have given : Arguments.IsNext ⟨"format", [.str "%+5dé", .int 7], 1⟩ (.int 7) := rfl
  exact (directive_accepted_iff rfl (valid.single ['é']) given).2.1.mpr ⟨_, ['é'], valid, rfl, suits⟩

/-- Zeros in front of a precision are not counted, so that three digits are accepted where no more than two
are regular. -/
theorem precision_too_long :
    Builtin.format.invoke [.str "%.001d", .int 5] {} = (.ok (.ret [.str "5"]), {}) ∧
    ∀ sp : Spelling, sp.Regular → ∀ rest, ['.', '0', '0', '1', 'd'] ≠ sp.text ++ rest := by
  constructor
  · have read : Directive.read ['.', '0', '0', '1', 'd'] = .ok (⟨{}, none, some 1, 'd'⟩, []) := rfl
    exact invoke_directive (by simp) (by simp) read rfl {}
  · rintro ⟨flags, width, precision, letter⟩ regular rest same
    have known : letter ∈ conversions := regular.conversion
    rw [Spelling.text_append] at same
    cases flags with
    | cons flag _ =>
      have first := (List.cons.inj same).1
      revert first
      cases flag <;> decide
    | nil =>
      cases width with
      | cons c _ =>
        have digit := regular.width c List.mem_cons_self
        rw [← (List.cons.inj same).1] at digit
        cases digit
      | nil =>
        rcases precision with _ | _ | ⟨a, _ | ⟨b, _ | ⟨c, more⟩⟩⟩
        case some.cons.cons.cons =>
          have short : more.length + 3 ≤ 2 := regular.precision_length _ rfl
          omega
        all_goals
          cases same
          revert known
          decide

end Acceptance

end Formatting

end CoopScript
