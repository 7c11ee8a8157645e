import CoopScript.Library.Builtins

/-! Questions of library functions. Substitution, formatting and the text of a value each come to
a point where only a function from outside can answer. What is asked then, and how the work goes
on, depends on the saved state and the answer alone, and each answer leaves less to ask. -/

namespace CoopScript

namespace Arguments

/-- A reader that leaves the values as they are, and what it reads. -/
def Draws {α : Type} (values : List Value) (post : α → Prop) (reader : ArgumentsM α) : Prop :=
  ∀ a b x, a.values = values → reader a = .ok (x, b) → b.values = values ∧ post x

namespace Draws

variable {α β : Type} {values : List Value} {post : α → Prop} {after : β → Prop}

theorem pure {x : α} (holds : post x) : Draws values post (Pure.pure x) := by
  intro a b y same read
  cases read
  exact ⟨same, holds⟩

theorem throw (e : ScriptError) : Draws values post (throw e) := by
  intro a b x same read
  cases read

theorem lift (op : Except ScriptError α) : Draws values (fun _ => True) (liftM op) := by
  intro a b x same read
  cases op <;> cases read
  exact ⟨same, trivial⟩

theorem get : Draws values (fun a : Arguments => a.values = values) MonadState.get := by
  intro a b x same read
  cases read
  exact ⟨same, same⟩

theorem bind {reader : ArgumentsM α} {next : α → ArgumentsM β} (first : Draws values post reader)
    (rest : ∀ x, post x → Draws values after (next x)) : Draws values after (reader >>= next) := by
  intro a b y same read
  change Except.bind (reader a) (fun r => next r.1 r.2) = _ at read
  cases ran : reader a with
  | error e =>
    rw [ran] at read
    cases read
  | ok result =>
    rw [ran] at read
    obtain ⟨kept, holds⟩ := first a result.2 result.1 same ran
    exact rest result.1 holds result.2 b y kept read

theorem nextOrNil : Draws values (fun v => v = .nil ∨ v ∈ values) Arguments.nextOrNil := by
  intro a b v same read
  cases read
  refine ⟨same, ?_⟩
  cases found : a.values[a.position]? with
  | none => exact .inl rfl
  | some v => exact .inr (same ▸ List.mem_of_getElem? found)

theorem nextAny : Draws values (· ∈ values) Arguments.nextAny := by
  intro a b v same read
  cases found : a.values[a.position]? with
  | none =>
    rw [nextAny_of_none found] at read
    cases read
  | some v =>
    rw [nextAny_of_some found] at read
    cases read
    exact ⟨same, same ▸ List.mem_of_getElem? found⟩

theorem nextText : Draws values (fun _ => True) Arguments.nextText := by
  refine nextOrNil.bind fun v _ => get.bind fun a _ => ?_
  split
  · exact .pure trivial
  · exact .throw _

theorem nextInt : Draws values (fun _ => True) Arguments.nextInt := by
  refine nextOrNil.bind fun v _ => get.bind fun a _ => ?_
  split
  · exact .pure trivial
  · split <;> exact .throw _

theorem nextFloat : Draws values (fun _ => True) Arguments.nextFloat := by
  refine nextOrNil.bind fun v _ => get.bind fun a _ => ?_
  split
  · exact .pure trivial
  · exact .throw _

theorem optInt (default : Int64) : Draws values (fun _ => True) (Arguments.optInt default) := by
  refine get.bind fun a _ => ?_
  split
  · exact nextOrNil.bind fun _ _ => .pure trivial
  · exact nextInt

theorem reading {reader : ArgumentsM α} (draws : Draws values post reader) {function : String} {x : α}
    (read : Arguments.reading function values reader = .ok x) : post x := by
  change Except.bind (reader { function, values }) (fun r => .ok r.1) = _ at read
  cases ran : reader { function, values } with
  | error e =>
    rw [ran] at read
    cases read
  | ok result =>
    rw [ran] at read
    cases read
    exact (draws _ result.2 result.1 rfl ran).2

end Draws

end Arguments

namespace Substitution

open Arguments

/-- How many more matches the limit allows. -/
def left (s : Substitution) : Nat := (s.limit - s.count).toNat

theorem left_past {s : Substitution} {found : Pattern.Found} (seen : s.sight = .matched found) :
    (s.past found).left < s.left := by
  simp only [sight] at seen
  split at seen
  · next allowed =>
    simp only [left, past]
    omega
  · cases seen

/-- What is asked for comes from the replacement, which stays the same, and there is less to ask. -/
def Next.Follows (s : Substitution) : Next → Prop
  | .finished _ => True
  | .lookup table _ next => s.replacement = .lookup table ∧ next.replacement = s.replacement ∧ next.left < s.left
  | .call _ _ next => next.replacement = s.replacement ∧ next.left < s.left

theorem Next.Follows.of_less {s t : Substitution} {next : Next} (follows : Next.Follows t next)
    (same : t.replacement = s.replacement) (less : t.left < s.left) : Next.Follows s next := by
  cases next with
  | finished => trivial
  | lookup table key next => exact ⟨same ▸ follows.1, follows.2.1.trans same, Nat.lt_trans follows.2.2 less⟩
  | call function captures next => exact ⟨follows.1.trans same, Nat.lt_trans follows.2 less⟩

theorem run_follows (s : Substitution) (fuel : Nat) : Next.Follows s (s.run fuel) := by
  induction fuel generalizing s with
  | zero => trivial
  | succ fuel ih =>
    cases seen : s.sight with
    | nothing =>
      simp only [run, seen]
      trivial
    | passed c =>
      simp only [run, seen]
      exact ih (s.keep c)
    | matched found =>
      have less := left_past seen
      have same : (s.past found).replacement = s.replacement := rfl
      simp only [run, seen, same]
      cases replacement : s.replacement with
      | template text => exact (ih _).of_less replacement.symm less
      | lookup table => exact ⟨replacement, same, less⟩
      | call function => exact ⟨same, less⟩

theorem collect_keeps {s next : Substitution} {value : Value} (collected : s.collect value = .ok next) :
    next.replacement = s.replacement ∧ next.left = s.left := by
  simp only [collect] at collected
  split at collected
  · cases collected
    exact ⟨rfl, rfl⟩
  · split at collected <;> cases collected
    exact ⟨rfl, rfl⟩

theorem start_lookup {args : List Value} {s : Substitution} (started : start args = .ok s) :
    ∀ table, s.replacement = .lookup table → .table table ∈ args := by
  suffices draws : Draws args (fun s : Substitution => ∀ table, s.replacement = .lookup table → .table table ∈ args) _ from
    draws.reading started
  refine Draws.nextText.bind fun text _ => Draws.nextText.bind fun pattern _ => ?_
  refine (Draws.lift _).bind fun program _ => Draws.nextOrNil.bind fun v given => ?_
  have rest (replacement : Replacement) (named : ∀ table, replacement = .lookup table → .table table ∈ args) :
      Draws args (fun s : Substitution => ∀ table, s.replacement = .lookup table → .table table ∈ args) (do
        let limit ← optInt Int64.maxValue
        return { subject := text.toList.toArray, search := program.search?, replacement, limit := limit.toInt }) :=
    (Draws.optInt _).bind fun _ _ => .pure named
  split
  · next table =>
    refine rest _ fun other same => ?_
    cases same
    exact given.resolve_left (by simp)
  · exact rest _ (by simp)
  · split
    · exact rest _ (by simp)
    · exact Draws.get.bind fun _ _ => .bind (.throw _) rest

end Substitution

namespace Formatting

open Arguments

theorem length_readFlags {f flags : Flags} {text rest : List Char} (read : readFlags f text = .ok (flags, rest)) :
    rest.length ≤ text.length := by
  induction text generalizing f with
  | nil =>
    cases read
    exact Nat.le_refl _
  | cons c text ih =>
    simp only [readFlags] at read
    split at read
    · exact Nat.le_succ_of_le (ih read)
    · cases read
    · cases read
      exact Nat.le_refl _

theorem length_readField {value field : Option Nat} {text rest : List Char}
    (read : readField value text = .ok (field, rest)) : rest.length ≤ text.length := by
  induction text generalizing value with
  | nil =>
    cases read
    exact Nat.le_refl _
  | cons c text ih =>
    simp only [readField] at read
    split at read
    · split at read
      · cases read
      · exact Nat.le_succ_of_le (ih read)
    · cases read
      exact Nat.le_refl _

theorem bind_ok {α β : Type} {first : Except ScriptError α} {next : α → Except ScriptError β} {b : β}
    (ok : first >>= next = .ok b) : ∃ a, first = .ok a ∧ next a = .ok b := by
  cases first with
  | error e => cases ok
  | ok a => exact ⟨a, rfl, ok⟩

/-- A directive has at least its conversion letter. -/
theorem Directive.length_read {d : Directive} {text rest : List Char} (read : Directive.read text = .ok (d, rest)) :
    rest.length < text.length := by
  obtain ⟨⟨flags, sized⟩, flagged, read⟩ := bind_ok read
  obtain ⟨⟨width, pointed⟩, widened, read⟩ := bind_ok read
  have shorter := Nat.le_trans (length_readField widened) (length_readFlags flagged)
  dsimp only at read
  split at read
  · next digits =>
    obtain ⟨⟨precision, closed⟩, fielded, read⟩ := bind_ok read
    have fewer := Nat.le_trans (Nat.le_succ_of_le (length_readField fielded)) shorter
    cases closed with
    | nil => cases read
    | cons conversion rest =>
      cases read
      exact fewer
  · cases pointed with
    | nil => cases read
    | cons conversion rest =>
      cases read
      exact shorter

theorem convert_draws (d : Directive) (values : List Value) :
    Draws values (fun converted => ∀ v, converted = .inr v → v ∈ values) (convert d) := by
  have told (text : String) : ∀ v : Value, (Sum.inl text : String ⊕ Value) = .inr v → v ∈ values := by simp
  unfold convert
  split
  · exact Draws.nextInt.bind fun _ _ => .pure (told _)
  · exact Draws.nextInt.bind fun _ _ => .pure (told _)
  · exact Draws.nextInt.bind fun _ _ => .pure (told _)
  · exact Draws.nextInt.bind fun _ _ => .pure (told _)
  · exact Draws.nextInt.bind fun _ _ => .pure (told _)
  · exact Draws.nextInt.bind fun _ _ => .pure (told _)
  · refine Draws.nextInt.bind fun code _ => ?_
    dsimp only
    split
    · exact .pure (told _)
    · exact Draws.get.bind fun _ _ => .throw _
  iterate 6 exact Draws.nextFloat.bind fun _ _ => .pure (told _)
  · refine Draws.nextAny.bind fun v _ => ?_
    split
    · exact .pure (told _)
    · exact Draws.get.bind fun _ _ => .throw _
  · refine Draws.nextAny.bind fun v member => ?_
    split
    · exact .pure (told _)
    · refine .pure fun other same => ?_
      cases same
      exact member
  · exact .throw _

/-- The text of an argument is asked for, and less of the format is left. -/
def Next.Follows (s : Formatting) : Next → Prop
  | .finished _ => True
  | .textOf value next => value ∈ s.args.values ∧ next.args.values = s.args.values ∧ next.rest.length < s.rest.length

theorem Next.Follows.of_less {s t : Formatting} {next : Next} (follows : Next.Follows t next)
    (same : t.args.values = s.args.values) (less : t.rest.length < s.rest.length) : Next.Follows s next := by
  cases next with
  | finished => trivial
  | textOf value next => exact ⟨same ▸ follows.1, follows.2.1.trans same, Nat.lt_trans follows.2.2 less⟩

theorem run_follows {s : Formatting} {fuel : Nat} {next : Next} (ran : s.run fuel = .ok next) : Next.Follows s next := by
  induction fuel generalizing s with
  | zero =>
    cases ran
    trivial
  | succ fuel ih =>
    rw [run] at ran
    split at ran
    · cases ran
      trivial
    · next rest format =>
      refine (ih ran).of_less rfl ?_
      simp only [format, List.length_cons]
      omega
    · next text other format =>
      split at ran
      · cases ran
      · obtain ⟨⟨d, rest⟩, read, ran⟩ := bind_ok ran
        obtain ⟨⟨converted, args⟩, given, ran⟩ := bind_ok ran
        obtain ⟨kept, member⟩ := convert_draws d s.args.values s.args args converted rfl given
        have less : rest.length < s.rest.length := by
          have shorter := Directive.length_read read
          simp only [format, List.length_cons]
          omega
        cases converted with
        | inl text => exact (ih ran).of_less kept less
        | inr v =>
          cases ran
          exact ⟨member v rfl, kept, less⟩
    · next c rest _ _ format =>
      refine (ih ran).of_less rfl ?_
      simp only [format, List.length_cons]
      omega

theorem collect_keeps {s next : Formatting} {value : Value} (collected : s.collect value = .ok next) :
    next.args = s.args ∧ next.rest = s.rest := by
  simp only [collect] at collected
  split at collected
  · cases collected
    exact ⟨rfl, rfl⟩
  · split at collected <;> cases collected
    exact ⟨rfl, rfl⟩

theorem start_values {values : List Value} {s : Formatting} (started : start values = .ok s) : s.args.values = values := by
  obtain ⟨⟨format, args⟩, read, made⟩ := bind_ok started
  cases made
  exact (Draws.nextText _ _ _ rfl read).1

end Formatting

/-- How many more questions a function can ask after it has gone on from the state. -/
def Saved.rounds : Saved → Nat
  | .substitution s => s.left
  | .formatting s => s.rest.length
  | _ => 0

namespace Action

/-- A function is called, or something is asked of one of the arguments, and the function will go
on from the state. -/
inductive Asks (args : List Value) (state : Saved) : Action → Prop where
  | call (function : FunctionId) (captures : List Value) : Asks args state (.call (.function function) captures 0 state)
  | index {object : Value} (member : object ∈ args) (key : Value) : Asks args state (.index object key state)
  | text {value : Value} (member : value ∈ args) : Asks args state (.textOf value state)

end Action

namespace Builtin

/-- The functions that leave replacements and texts to others. -/
inductive CallsBack : Builtin → Prop where
  | gsub : CallsBack .gsub
  | format : CallsBack .format
  | tostring : CallsBack .tostring

/-- A state of a call with these arguments. -/
inductive Ready (args : List Value) : Builtin → Saved → Prop where
  | substitution {s : Substitution} (given : ∀ table, s.replacement = .lookup table → .table table ∈ args) :
      Ready args .gsub (.substitution s)
  | formatting {s : Formatting} (given : s.args.values = args) : Ready args .format (.formatting s)
  | unit : Ready args .tostring .unit

/-- An answer of a function that calls back: it fails, has its results, or asks, with less to ask
than the bound. -/
inductive Answers (b : Builtin) (args : List Value) (bound : Nat) : Except Failure Action → Prop where
  | failed (e : Failure) : Answers b args bound (.error e)
  | ended (results : List Value) : Answers b args bound (.ok (.ret results))
  | asks {a : Action} {state : Saved} (asks : a.Asks args state) (ready : b.Ready args state)
      (fewer : state.rounds < bound) : Answers b args bound (.ok a)

variable {b : Builtin} {args : List Value}

theorem Ready.callsBack {state : Saved} (ready : b.Ready args state) : b.CallsBack := by
  cases ready with
  | substitution => exact .gsub
  | formatting => exact .format
  | unit => exact .tostring

theorem CallsBack.isResumable (callsBack : b.CallsBack) : b.isResumable = true := by
  cases callsBack <;> rfl

theorem substituteOn_answers {s : Substitution} (given : ∀ table, s.replacement = .lookup table → .table table ∈ args)
    {bound : Nat} (within : s.left ≤ bound) : gsub.Answers args bound (.ok (substituteOn s)) := by
  have follows := s.run_follows (2 * s.subject.size + 3)
  simp only [substituteOn, Substitution.advance]
  generalize s.run (2 * s.subject.size + 3) = next at follows
  cases next with
  | finished results => exact .ended results
  | lookup table key next =>
    obtain ⟨replacement, same, less⟩ := follows
    refine .asks (.index (given table replacement) key) (.substitution ?_) (Nat.lt_of_lt_of_le less within)
    rw [same]
    exact given
  | call function captures next =>
    obtain ⟨same, less⟩ := follows
    refine .asks (.call function captures) (.substitution ?_) (Nat.lt_of_lt_of_le less within)
    rw [same]
    exact given

/-- The answer depends on the arguments alone, and the world is left as it is. -/
def Fixed (post : Except Failure Action → Prop) (op : WorldM Action) : Prop :=
  ∃ answer, (∀ w : World, op w = (answer, w)) ∧ post answer

theorem Fixed.pure {post : Except Failure Action → Prop} {a : Action} (holds : post (.ok a)) :
    Fixed post (Pure.pure a) :=
  ⟨.ok a, fun _ => rfl, holds⟩

theorem Fixed.raising {α : Type} {post : Except Failure Action → Prop} {result : Except ScriptError α}
    {next : α → WorldM Action} (fails : ∀ e, post (.error e)) (goes : ∀ a, result = .ok a → Fixed post (next a)) :
    Fixed post (CoopScript.raising result >>= next) := by
  cases result with
  | error e => exact ⟨.error (.script e), fun _ => rfl, fails _⟩
  | ok a => exact goes a rfl

theorem formatOn_answers {s : Formatting} (given : s.args.values = args) {bound : Nat} (within : s.rest.length ≤ bound) :
    Fixed (format.Answers args bound) (formatOn s) := by
  refine .raising .failed fun next advanced => ?_
  have follows := Formatting.run_follows advanced
  cases next with
  | finished text => exact .pure (.ended _)
  | textOf value next =>
    obtain ⟨member, same, less⟩ := follows
    exact .pure (.asks (.text (given ▸ member)) (.formatting (same.trans given)) (Nat.lt_of_lt_of_le less within))

/-- What a function that calls back answers first. -/
theorem invoke_answers (callsBack : b.CallsBack) (args : List Value) :
    Fixed (fun answer => ∃ bound, b.Answers args bound answer) (b.invoke args) := by
  have fails (e : Failure) : ∃ bound, b.Answers args bound (.error e) := ⟨0, .failed e⟩
  cases callsBack with
  | gsub =>
    refine .raising fails fun s started => .pure ⟨s.left, ?_⟩
    exact substituteOn_answers (Substitution.start_lookup started) (Nat.le_refl _)
  | format =>
    refine .raising fails fun s started => ?_
    obtain ⟨answer, told, answers⟩ := formatOn_answers (Formatting.start_values started) (Nat.le_refl _)
    exact ⟨answer, told, _, answers⟩
  | tostring =>
    refine .raising fails fun v read => .pure ⟨1, ?_⟩
    exact .asks (.text (Arguments.Draws.nextAny.reading read)) .unit Nat.one_pos

/-- What it answers when it goes on. Then there is less to ask. -/
theorem resume_answers {state : Saved} (ready : b.Ready args state) (held : List Value) :
    Fixed (b.Answers args state.rounds) (b.resume state held) := by
  cases ready with
  | substitution given =>
    refine .raising .failed fun next collected => .pure ?_
    obtain ⟨same, left⟩ := Substitution.collect_keeps collected
    exact substituteOn_answers (same ▸ given) (Nat.le_of_eq left)
  | formatting given =>
    refine .raising .failed fun next collected => ?_
    obtain ⟨values, rest⟩ := Formatting.collect_keeps collected
    exact formatOn_answers (values ▸ given) (Nat.le_of_eq (congrArg List.length rest))
  | unit =>
    simp only [resume]
    split
    · exact .pure (.ended _)
    · exact ⟨.error (.script .tostringResult), fun _ => rfl, .failed _⟩

end Builtin

end CoopScript
