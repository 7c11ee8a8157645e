import CoopScript.Proofs.FormatTexts
import CoopScript.Proofs.WindowCalls

/-! Formatting is compositional. A call with plain values asks nobody but the machine for a text, and the machine
answers at once with the text of the value by itself. So a call comes to what the formatting settles on, wherever it
is made, and what one format writes is not affected by what is written before or after it. -/

namespace CoopScript

namespace Formatting

open Builtin

/-- The state at the start of a format. -/
def opening (format : String) (args : List Value) : Formatting :=
  { rest := format.toList, args := ⟨"format", .str format :: args, 1⟩ }

variable {s t u : Formatting} {v : Value} {text : String} {e : ScriptError} {w : World}

theorem formatOn_finished (finished : s.advance = .ok (.finished text)) :
    formatOn s w = (.ok (.ret [.str text]), w) := by
  rw [formatOn, finished]
  rfl

theorem formatOn_textOf (asked : s.advance = .ok (.textOf v t)) :
    formatOn s w = (.ok (.textOf v (.formatting t)), w) := by
  rw [formatOn, asked]
  rfl

theorem formatOn_failed (failed : s.advance = .error e) : formatOn s w = (.error (.script e), w) := by
  rw [formatOn, failed]
  rfl

theorem resume_collected {answer : Value} (collected : t.collect answer = .ok u) :
    format.resume (.formatting t) [answer] w = formatOn u w := by
  rw [resume, List.headD_cons, collected]
  rfl

/-- A format without a percent sign is its own text. -/
theorem advance_copy {f : List Char} (here : s.rest = f) (plain : '%' ∉ f) :
    s.advance = .ok (.finished (s.output ++ String.ofList f)) := by
  induction f generalizing s with
  | nil =>
    rw [advance_ended (round_over here), String.ofList_nil, String.append_empty]
  | cons c f ih =>
    have different := Ne.symm (List.ne_of_not_mem_cons plain)
    rw [advance_on (round_plain here different), ih rfl (List.not_mem_of_not_mem_cons plain), String.ofList_cons,
      ← String.append_assoc, String.append_singleton]

/-- What is asked for is one of the arguments. -/
theorem asked_mem (asked : s.round = .ok (.inr (.textOf v t))) : v ∈ s.args.values := by
  have turn := s.turn_round
  rw [asked] at turn
  generalize question : Sum.inr (Next.textOf v t) = outcome at turn
  cases turn with
  | finished | percent | copied => cases question
  | @passed _ _ _ d converted _ _ given _ _ takes =>
    have drawn := (convert_draws d s.args.values s.args s.args.moved converted rfl (takes s.args given)).2
    cases converted with
    | inl => cases question
    | inr asked =>
      cases question
      exact drawn v rfl

end Formatting

/-- A value without a metatable is told by itself. -/
theorem World.defaultText_plain (w : World) {v : Value} (plain : v.IsPlain) : w.defaultText v = v.display := by
  cases v <;> first | rfl | cases plain

theorem World.metamethod?_plain (w : World) {v : Value} (plain : v.IsPlain) (event : String) :
    w.metamethod? v event = none := by
  cases v <;> first | rfl | cases plain

namespace Machine

/-- The machine is about to begin a call of the format function. -/
structure FormatCall (m : Machine) (w : Window) (format : String) (args : List Value) : Prop where
  entered : ∃ f, m.activity = .enter f w ∧ m.core.world.callable f = .builtin .format
  shows : w.Shows m.core.context.stack (.str format :: args)

/-- Formatting is at work in a window that has room for a result. -/
structure Formats (m : Machine) (base : Window) (f : FunctionId) (s : Formatting) : Prop where
  working : m.activity ≠ .returned
  callee : m.core.world.callable f = .builtin .format
  room : base.offset < m.core.context.stack.capacity
  answers : m.activity.step m.core = m.core.performed f base (Builtin.formatOn s m.core.world)

/-- What a call delivers when it comes to this. -/
def delivered : Except ScriptError String → Except Failure (List Value)
  | .ok text => .ok [.str text]
  | .error e => .error (.script e)

variable {m n last : Machine} {base w : Window} {frames : List Frame} {f : FunctionId} {s t u : Formatting} {v : Value}
  {text : String} {e : ScriptError} {pauses : Nat} {outcome : Except Failure (List Value)}

theorem Goes.concludes (goes : m.Goes frames n) (concludes : n.Concludes base frames pauses outcome last) :
    m.Concludes base frames pauses outcome last := by
  induction goes with
  | here => exact concludes
  | step own moved _ ih => exact .next own.ongoing moved (ih concludes)

theorem Formats.of_advance (formats : m.Formats base f s) (same : s.advance = t.advance) : m.Formats base f t where
  working := formats.working
  callee := formats.callee
  room := formats.room
  answers := by rw [formats.answers, Builtin.formatOn, same, ← Builtin.formatOn]

theorem Formats.finished (formats : m.Formats base f s) (finished : s.advance = .ok (.finished text)) :
    ∃ last, m.Concludes base m.frames 0 (.ok [.str text]) last := by
  have fits : base.offset + [Value.str text].length ≤ m.core.context.stack.capacity := formats.room
  obtain ⟨stack, shows, performed⟩ := Core.performed_ret (f := f) (v := m.core.world) fits
  let after : Machine := { m with core := m.core.withStack stack, activity := .returned }
  have moved : m.step = .inl after := by
    rw [step_working rfl formats.working, formats.answers, Formatting.formatOn_finished finished, performed]
    rfl
  have ends : after.Concludes base m.frames 0 (.ok (base.values after.core.context.stack)) after := .returned rfl rfl
  rw [show base.values after.core.context.stack = [.str text] from shows.values] at ends
  exact ⟨after, .next (fun returned => absurd returned formats.working) moved ends⟩

theorem Formats.failed (formats : m.Formats base f s) (failed : s.advance = .error e) :
    ∃ last, m.Concludes base m.frames 0 (.error (.script e)) last := by
  refine ⟨(m.fail (.script e)).2, .failed (fun returned => absurd returned formats.working) ?_⟩
  rw [step_working rfl formats.working, formats.answers, Formatting.formatOn_failed failed]
  rfl

/-- A plain value is told by the machine, and formatting goes on with its text. -/
theorem Formats.told (formats : m.Formats base f s) (asked : s.advance = .ok (.textOf v t)) (plain : v.IsPlain)
    (collected : t.collect (.str v.display) = .ok u) :
    ∃ n, m.Goes m.frames n ∧ n.frames = m.frames ∧ n.Formats base f u := by
  have stepped : m.activity.step m.core = (.ok (.call ⟨f, base, some (.formatting t)⟩ (.text v) base), m.core) := by
    rw [formats.answers, Formatting.formatOn_textOf asked]
    rfl
  have called := waits_called formats.working stepped ⟨rfl, rfl⟩
  have fits : base.offset + [Value.str v.display].length ≤ m.core.context.stack.capacity := formats.room
  obtain ⟨stack, placed, shows, capacity⟩ := Window.ret_shows fits
  have served : (Request.text v).serve base m.core = (.ok .returned, m.core.withStack stack) := by
    simp only [Request.serve, Core.bind_apply, Core.getWorld_apply, World.metamethod?_plain _ plain,
      World.defaultText_plain _ plain, Core.onStack_apply, placed]
    rfl
  have waits := waits_served (m := { m with
    activity := .dispatch (.text v) base, callers := ⟨f, base, some (.formatting t)⟩ :: m.callers }) rfl called.frames
    served ⟨rfl, capacity⟩
  obtain ⟨n, goes, core, frames, active⟩ := goes_on rfl waits.frames formats.callee rfl
  refine ⟨n, (called.goes.trans waits.goes).trans goes, frames, ?_, ?_, ?_, ?_⟩
  · rw [active]
    simp
  · rw [core]
    exact formats.callee
  · rw [core]
    exact capacity.symm ▸ formats.room
  · have held : base.values n.core.context.stack = [.str v.display] := by
      rw [core]
      exact shows.values
    have callee : n.core.world.callable f = .builtin .format := by
      rw [core]
      exact formats.callee
    rw [active, Activity.step_resume, callee, Callable.resume_builtin, held, Formatting.resume_collected collected]

/-- What formatting of plain values comes to on a machine is what it settles on. -/
theorem Formats.concludes {result : Except ScriptError String} (settles : s.Settles result)
    (plain : ∀ v ∈ s.args.values, v.IsPlain) (formats : m.Formats base f s) :
    ∃ last, m.Concludes base m.frames 0 (delivered result) last := by
  induction settles generalizing m with
  | finished ended => exact formats.finished (Formatting.advance_ended ended)
  | failed failed => exact formats.failed (Formatting.advance_failed failed)
  | on went _ ih =>
    obtain ⟨_, _, reads⟩ := Formatting.reads_round went rfl
    exact ih (reads.values ▸ plain) (formats.of_advance (Formatting.advance_on went))
  | told asked collected _ ih =>
    obtain ⟨_, _, reads⟩ := (Formatting.Moves.answered asked collected).reads
    have plainly := plain _ (Formatting.asked_mem asked)
    obtain ⟨n, goes, back, formats⟩ := formats.told (Formatting.advance_ended asked) plainly collected
    obtain ⟨last, concludes⟩ := ih (reads.values ▸ plain) formats
    exact ⟨last, goes.concludes (back ▸ concludes)⟩

theorem FormatCall.formats {format : String} {args : List Value} (call : m.FormatCall base format args) :
    ∃ f, m.Formats base f (.opening format args) := by
  obtain ⟨f, active, callee⟩ := call.entered
  refine ⟨f, by simp [active], callee, ?_, ?_⟩
  · have top := call.shows.top
    have fits := call.shows.fits
    rw [List.length_cons] at top
    omega
  · rw [active, Activity.step_enter, callee, Callable.invoke_builtin, call.shows.values]
    rfl

end Machine

namespace Formatting

variable {f f₁ f₂ o o₁ o₂ : String} {a a₁ a₂ : List Value} {result : Except ScriptError String} {t : Formatting}
  {n : Nat}

/-- A call with these arguments has ended with this text. -/
def Ended (format : String) (args : List Value) (text : String) : Prop :=
  ∃ m base pauses last, Machine.FormatCall m base format args ∧ m.Concludes base m.frames pauses (.ok [.str text]) last

/-- Every call with these arguments ends with this, and none of them pauses. -/
def Ends (format : String) (args : List Value) (outcome : Except Failure (List Value)) : Prop :=
  ∀ m base, Machine.FormatCall m base format args → ∃ last, m.Concludes base m.frames 0 outcome last

/-- The format goes on from where the state is, which is where a character begins. -/
structure Placed (s : Formatting) (format : String) (read : List Char) : Prop where
  parts : format.toList = read ++ s.rest
  position : s.position = Utf8.size read
  valid : String.Pos.Raw.IsValid format ⟨s.position⟩
  /-- So does what follows a percent sign. -/
  valid_next : ∀ text, s.rest = '%' :: text → String.Pos.Raw.IsValid format ⟨s.position + 1⟩

theorem exists_formatCall (format : String) (args : List Value) : ∃ m base, Machine.FormatCall m base format args := by
  let held : List Value := .str format :: args
  let context : Context := ⟨⟨held.toArray, held.length⟩, Budget.new {}, true⟩
  let m : Machine := { core := ⟨{ functions := #[.builtin .format] }, context⟩, activity := .enter ⟨0⟩ ⟨0⟩ }
  refine ⟨m, ⟨0⟩, ⟨⟨0⟩, rfl, rfl⟩, ?_⟩
  refine .of_get (Nat.zero_add _).symm (Nat.le_refl _) fun i inside => ?_
  change held.toArray.getD (0 + i) .nil = held[i]
  rw [Nat.zero_add, Array.getD_eq_getD_getElem?, List.getElem?_toArray, List.getElem?_eq_getElem inside]
  rfl

/-- A format settles on a text if it yields it. -/
theorem settles_opening : (opening f a).Settles (.ok o) ↔ ∃ b, Yields f.toList a o b := by
  have nothing (x : String) : (opening f a).output ++ x = x := String.empty_append
  constructor
  · intro settles
    obtain ⟨x, b, yields, rfl⟩ := settles.yields
    exact ⟨b, nothing x ▸ yields⟩
  · rintro ⟨b, yields⟩
    have settles : (opening f a).Settles (.ok ((opening f a).output ++ o)) := yields.settles rfl rfl
    rwa [nothing] at settles

theorem ends_of_settles (settles : (opening f a).Settles result) (plain : ∀ v ∈ a, v.IsPlain) :
    Ends f a (Machine.delivered result) := by
  intro m base call
  obtain ⟨g, formats⟩ := call.formats
  exact formats.concludes settles (List.forall_mem_cons.mpr ⟨trivial, plain⟩)

theorem settles_of_ended (ended : Ended f a o) (plain : ∀ v ∈ a, v.IsPlain) : (opening f a).Settles (.ok o) := by
  obtain ⟨m, base, pauses, last, call, concludes⟩ := ended
  obtain ⟨result, settles⟩ := settles_total (opening f a)
  obtain ⟨_, concluded⟩ := ends_of_settles settles plain m base call
  obtain ⟨-, same, -⟩ := concludes.unique concluded
  cases result with
  | error => cases same
  | ok text =>
    cases same
    exact settles

theorem Ends.ended (ends : Ends f a (.ok [.str o])) : Ended f a o := by
  obtain ⟨m, base, call⟩ := exists_formatCall f a
  obtain ⟨last, concludes⟩ := ends m base call
  exact ⟨m, base, 0, last, call, concludes⟩

theorem ends_append (plain : ∀ v ∈ a₁ ++ a₂, v.IsPlain) (all : (directives f₁.toList).length = a₁.length)
    (first : Ended f₁ a₁ o₁) (second : Ended f₂ a₂ o₂) : Ends (f₁ ++ f₂) (a₁ ++ a₂) (.ok [.str (o₁ ++ o₂)]) := by
  obtain ⟨plain₁, plain₂⟩ := List.forall_mem_append.mp plain
  obtain ⟨b, yields⟩ := settles_opening.mp (settles_of_ended first plain₁)
  obtain ⟨c, later⟩ := settles_opening.mp (settles_of_ended second plain₂)
  have none : b = [] := by
    have count := yields.count
    exact List.length_eq_zero_iff.mp (by omega)
  subst none
  have both : Yields (f₁ ++ f₂).toList (a₁ ++ a₂) (o₁ ++ o₂) c := by
    rw [String.toList_append]
    exact (yields.with_more a₂).append later
  exact ends_of_settles (settles_opening.mpr ⟨c, both⟩) plain

theorem ends_copy (plain : '%' ∉ f.toList) (a : List Value) : Ends f a (.ok [.str f]) := by
  intro m base call
  obtain ⟨g, formats⟩ := call.formats
  have copied : (opening f a).advance = .ok (.finished ((opening f a).output ++ String.ofList f.toList)) :=
    advance_copy rfl plain
  rw [String.ofList_toList, show (opening f a).output ++ f = f from String.empty_append] at copied
  exact formats.finished copied

theorem Visits.placed (visits : (opening f a).Visits n t) : ∃ read, n ≤ read.length ∧ t.Placed f read := by
  obtain ⟨read, long, reads⟩ := visits.reads
  have parts : f.toList = read ++ t.rest := reads.rest
  have position : t.position = Utf8.size read := reads.position.trans (Nat.zero_add _)
  refine ⟨read, long, parts, position, position ▸ Utf8.isValid_size parts, fun text here => ?_⟩
  have next : f.toList = (read ++ ['%']) ++ text := by rw [parts, here, List.append_cons]
  have valid := Utf8.isValid_size next
  rwa [Utf8.size_append, ← position] at valid

/-- If a format writes a text with all of its values and another writes a text, both together write both texts, and
a format without directives is written as it is. The loop comes to an end in any state, and with any answers it goes
through no more rounds than there are characters in the format, each of which it begins where a character does. -/
theorem format_compositional :
    (∀ f₁ f₂ o₁ o₂ a₁ a₂, (∀ v ∈ a₁ ++ a₂, v.IsPlain) → (directives f₁.toList).length = a₁.length →
      Ended f₁ a₁ o₁ → Ended f₂ a₂ o₂ →
      Ended (f₁ ++ f₂) (a₁ ++ a₂) (o₁ ++ o₂) ∧ Ends (f₁ ++ f₂) (a₁ ++ a₂) (.ok [.str (o₁ ++ o₂)])) ∧
    (∀ f a, '%' ∉ f.toList → Ends f a (.ok [.str f])) ∧
    (∀ f a, (∀ v ∈ a, v.IsPlain) → ∃ result, Ends f a (Machine.delivered result)) ∧
    (∀ s : Formatting, ∃ n ≤ s.rest.length, s.Laps n s.advance) ∧
    ∀ f a n t, (opening f a).Visits n t → ∃ read, n ≤ read.length ∧ t.Placed f read := by
  refine ⟨?_, fun f a plain => ends_copy plain a, ?_, exists_laps, fun f a n t visits => visits.placed⟩
  · intro f₁ f₂ o₁ o₂ a₁ a₂ plain all first second
    have ends := ends_append plain all first second
    exact ⟨ends.ended, ends⟩
  · intro f a plain
    obtain ⟨result, settles⟩ := settles_total (opening f a)
    exact ⟨result, ends_of_settles settles plain⟩

/-- A value whose text has to be asked for, and after it a percent sign that ends the second format. -/
theorem format_compositional_nil : Ended "é%s=%d%%" [.nil, .int (-5)] "énil=-5%" := by
  have first : (opening "é%s=" [.nil]).Settles (.ok "énil=") := .on rfl (.told rfl rfl (.on rfl (.finished rfl)))
  have second : (opening "%d%%" [.int (-5)]).Settles (.ok "-5%") := .on rfl (.on rfl (.finished rfl))
  have plain : ∀ v ∈ [.nil, .int (-5)], Value.IsPlain v := by simp [Value.IsPlain]
  obtain ⟨plain₁, plain₂⟩ := List.forall_mem_append.mp (show ∀ v ∈ [.nil] ++ [.int (-5)], Value.IsPlain v from plain)
  have one : (directives "é%s=".toList).length = 1 := by cbv
  exact (format_compositional.1 "é%s=" "%d%%" "énil=" "-5%" [.nil] [.int (-5)] plain one
    (ends_of_settles first plain₁).ended (ends_of_settles second plain₂).ended).1

end Formatting

end CoopScript
