import CoopScript.Machine.Basic
import Mathlib

/-! What the library does to a world, and the states it leaves behind. Saved states are of many
kinds, and each function goes on from its own kind only. A library function either ends its call
or saves such a state; its failures are never ones of suspension; and of the functions in the
world it changes none, though it may add an iteration. -/

namespace CoopScript

/-- Failures that have nothing to do with suspension. -/
def Failure.Ordinary (e : Failure) : Prop := ∀ misuse, e ≠ .protocol misuse

namespace Action

/-- An action that ends the call at once. -/
def Immediate (a : Action) : Prop := a = .done ∨ ∃ results, a = .ret results

/-- The state from which the function goes on after the action. -/
def state? : Action → Option Saved
  | .done | .ret _ | .takeOver _ => none
  | .suspend _ s | .call _ _ _ s | .forward _ _ s | .index _ _ s | .textOf _ s | .spend _ s => some s

/-- The action ends the call, or saves a state of the expected kind. -/
def Suits (expects : Saved → Bool) (a : Action) : Prop := a.Immediate ∨ ∃ s, a.state? = some s ∧ expects s = true

theorem Suits.ret {expects : Saved → Bool} (results : List Value) : (Action.ret results).Suits expects :=
  .inl (.inr ⟨results, rfl⟩)

theorem Suits.saves {expects : Saved → Bool} {a : Action} {s : Saved} (saved : a.state? = some s)
    (expected : expects s = true) : a.Suits expects :=
  .inr ⟨s, saved, expected⟩

end Action

namespace Builtin

/-- The states that the function goes on from. -/
def expects : Builtin → Saved → Bool
  | pause, .arguments _ | tostring, .unit | format, .formatting _ | gsub, .substitution _ | fileWrite, .writing _
  | fileRead, .reading _ | fileSeek, .control _ _ | fileSetvbuf, .control _ _ | fileFlush, .file _
  | fileClose, .file _ | ioWrite, .unit | ioRead, .unit | ioFlush, .unit | ioClose, .unit => true
  | _, _ => false

theorem isResumable_of_expects {b : Builtin} {s : Saved} (expected : b.expects s = true) : b.isResumable = true := by
  unfold expects at expected
  split at expected <;> first | rfl | cases expected

/-- From any other state the function refuses to go on. -/
theorem resume_unexpected {b : Builtin} {s : Saved} (unexpected : b.expects s = false) (held : List Value) (w : World) :
    b.resume s held w =
      (.error (.protocol (if b.isResumable then .stateMismatch b.name else .notSuspendable b.name)), w) := by
  cases b <;> cases s <;> first | rfl | cases unexpected

end Builtin

namespace Callable

/-- The function is a verified script or belongs to the library. -/
def Shipped : Callable → Prop
  | .script p => p.verified = .ok p
  | .builtin _ | .matches _ | .lines _ _ => True
  | .host _ => False

instance : DecidablePred Shipped
  | .script p => inferInstanceAs (Decidable (p.verified = .ok p))
  | .builtin _ | .matches _ | .lines _ _ => isTrue trivial
  | .host _ => isFalse id

def IsIteration : Callable → Prop
  | .matches _ | .lines _ _ => True
  | .script _ | .builtin _ | .host _ => False

def expects : Callable → Saved → Bool
  | .script _, .script _ _ => true
  | .builtin b, s => b.expects s
  | .lines _ _, .reading _ => true
  | _, _ => false

theorem lines_expects (file : UserdataId) (formats : List ReadFormat) (r : ReadingItems) :
    (lines file formats).expects (.reading r) = true := rfl

theorem isResumable_of_expects {c : Callable} {s : Saved} (expected : c.expects s = true) : c.isResumable = true := by
  cases c with
  | builtin b => exact b.isResumable_of_expects expected
  | script _ | lines _ _ => rfl
  | «matches» _ | host _ => cases s <;> cases expected

end Callable

namespace World

theorem callable_of_absent {w : World} {f : FunctionId} (absent : w.functions[f.index]? = none) :
    w.callable f = .builtin .error := by
  rw [callable, Array.getD_eq_getD_getElem?, absent]
  rfl

/-- Every function is a verified script or belongs to the library. -/
def Shipped (w : World) : Prop := ∀ c ∈ w.functions, c.Shipped

instance (w : World) : Decidable w.Shipped := inferInstanceAs (Decidable (∀ c ∈ w.functions, c.Shipped))

theorem Shipped.callable {w : World} (shipped : w.Shipped) (f : FunctionId) : (w.callable f).Shipped := by
  simp only [World.callable, Array.getD_eq_getD_getElem?]
  cases found : w.functions[f.index]? with
  | none => trivial
  | some c => exact shipped c (Array.mem_of_getElem? found)

/-- The functions of a world are those of another with some iterations added. -/
def Extends (w v : World) : Prop :=
  ∃ added : Array Callable, v.functions = w.functions ++ added ∧ ∀ c ∈ added, c.IsIteration

theorem Extends.of_same {w v : World} (same : v.functions = w.functions) : w.Extends v :=
  ⟨#[], by simp [same], by simp⟩

theorem Extends.trans {u v w : World} (first : u.Extends v) (rest : v.Extends w) : u.Extends w := by
  obtain ⟨some, same, iterations⟩ := first
  obtain ⟨more, same', iterations'⟩ := rest
  refine ⟨some ++ more, by rw [same', same, Array.append_assoc], ?_⟩
  intro c member
  rcases Array.mem_append.mp member with member | member
  · exact iterations c member
  · exact iterations' c member

theorem Extends.addFunction (w : World) {c : Callable} (iteration : c.IsIteration) : w.Extends (w.addFunction c).2 := by
  refine ⟨#[c], by simp [World.addFunction], ?_⟩
  intro other member
  rw [Array.mem_singleton.mp member]
  exact iteration

/-- The functions that were there before are still the same, and the ids of others stand for
iterations or for nothing. -/
theorem Extends.callable {w v : World} (grown : w.Extends v) (f : FunctionId) :
    v.callable f = w.callable f ∨ w.functions[f.index]? = none ∧ (v.callable f).IsIteration := by
  obtain ⟨added, same, iterations⟩ := grown
  simp only [World.callable, same, Array.getD_eq_getD_getElem?, Array.getElem?_append]
  by_cases inside : f.index < w.functions.size
  · simp [inside]
  · cases found : added[f.index - w.functions.size]? with
    | none => simp [inside]
    | some c =>
      refine .inr ⟨by simpa using inside, ?_⟩
      simp only [inside, if_false, Option.getD_some]
      exact iterations c (Array.mem_of_getElem? found)

theorem bind_apply {α β : Type} (op : WorldM α) (next : α → WorldM β) (w : World) :
    (op >>= next) w = match op w with | (.ok a, w) => next a w | (.error e, w) => (.error e, w) := by
  change (ExceptT.bind op next) w = _
  simp only [ExceptT.bind, ExceptT.mk, Bind.bind, StateT.bind]
  rcases op w with ⟨_ | _, _⟩ <;> rfl

theorem read_apply {α : Type} (next : World → WorldM α) (w : World) : (getThe World >>= next) w = next w w := rfl

/-- The world has only grown, and there is an answer as told or an ordinary failure. -/
inductive Outcome {α : Type} (post : α → Prop) (w : World) : Except Failure α × World → Prop where
  | answer {a : α} {v : World} (grown : w.Extends v) (holds : post a) : Outcome post w (.ok a, v)
  | failure {e : Failure} {v : World} (grown : w.Extends v) (ordinary : e.Ordinary) : Outcome post w (.error e, v)

def Ensures {α : Type} (post : α → Prop) (op : WorldM α) : Prop := ∀ w : World, Outcome post w (op w)

namespace Outcome

variable {α : Type} {post : α → Prop} {w v : World} {result : Except Failure α × World}

theorem grown (outcome : Outcome post w result) : w.Extends result.2 := by
  cases outcome with
  | answer grown _ | failure grown _ => exact grown

theorem after (earlier : w.Extends v) (outcome : Outcome post v result) : Outcome post w result := by
  cases outcome with
  | answer grown holds => exact .answer (earlier.trans grown) holds
  | failure grown ordinary => exact .failure (earlier.trans grown) ordinary

end Outcome

namespace Ensures

variable {α β : Type} {post : α → Prop} {after : β → Prop}

theorem pure {a : α} (holds : post a) : Ensures post (Pure.pure a) := fun _ => .answer (.of_same rfl) holds

theorem throw (e : ScriptError) : Ensures post (throw (.script e)) :=
  fun _ => .failure (.of_same rfl) (by simp [Failure.Ordinary])

theorem raising (result : Except ScriptError α) : Ensures (fun _ => True) (raising result) := by
  cases result with
  | ok a => exact .pure trivial
  | error e => exact .throw e

theorem bind {op : WorldM α} {next : α → WorldM β} (first : Ensures post op)
    (rest : ∀ a, post a → Ensures after (next a)) : Ensures after (op >>= next) := by
  intro w
  have outcome := first w
  rw [bind_apply]
  generalize op w = result at outcome
  cases outcome with
  | @answer a v grown holds => exact (rest a holds v).after grown
  | failure grown ordinary => exact .failure grown ordinary

theorem read {next : World → WorldM α} (rest : ∀ w, Ensures post (next w)) : Ensures post (getThe World >>= next) :=
  fun w => rest w w

/-- The iteration that comes to be is the result. -/
theorem iteration {expects : Saved → Bool} {c : Callable} (iteration : c.IsIteration) :
    Ensures (Action.Suits expects) (do
      let (f, w) := (← getThe World).addFunction c
      set w
      return .ret [.function f]) :=
  fun w => .answer (.addFunction w iteration) (.ret _)

end Ensures

theorem transferring_ensures {α : Type} (u : UserdataId) (collected : Bytes) (taken : Nat) (op : TransferM α) :
    Ensures (fun _ => True) (Files.transferring u collected taken op) := by
  intro w
  rw [Files.transferring, read_apply]
  cases w.file? u with
  | none => exact Ensures.throw _ w
  | some h => exact .answer (.of_same rfl) trivial

section Files

variable {expects : Saved → Bool}

private theorem writeOn_ensures (writing : ∀ w, expects (.writing w) = true) (w : Writing) :
    Ensures (Action.Suits expects) (Files.writeOn w) := by
  apply (transferring_ensures _ _ _ _).bind
  rintro ⟨result, t⟩ _
  rcases result with error | _
  · cases error with
    | wouldBlock => exact .pure (.saves rfl (writing _))
    | _ => exact .throw _
  · exact .pure (.ret _)

theorem readItems_ensures (reading : ∀ r, expects (.reading r) = true) (file : UserdataId) (results : List Value)
    (collected : Bytes) (formats : List ReadFormat) :
    Ensures (Action.Suits expects) (Files.readItems file results collected formats) := by
  induction formats generalizing results collected with
  | nil => exact .pure (.ret _)
  | cons format formats ih =>
    apply (transferring_ensures _ _ _ _).bind
    rintro ⟨result, t⟩ _
    rcases result with error | v
    · cases error with
      | wouldBlock => exact .pure (.saves rfl (reading _))
      | _ => exact .throw _
    · simp only
      split
      · exact .pure (.ret _)
      · exact ih _ _

theorem nextItems_ensures (reading : ∀ r, expects (.reading r) = true) (file : UserdataId) (formats : List ReadFormat) :
    Ensures (Action.Suits expects) (Files.nextItems file formats) := by
  refine .read fun w => ?_
  cases w.file? file with
  | none => exact .throw _
  | some h =>
    simp only
    split
    · exact .throw _
    · exact readItems_ensures reading _ _ _ _

private theorem controlOn_ensures (control : ∀ u c, expects (.control u c) = true) (file : UserdataId) (c : Control) :
    Ensures (Action.Suits expects) (Files.controlOn file c) := by
  apply (transferring_ensures _ _ _ _).bind
  rintro ⟨result, t⟩ _
  rcases result with error | _
  · cases error with
    | wouldBlock => exact .pure (.saves rfl (control _ _))
    | _ => exact .pure (.ret _)
  · exact .pure (.ret _)

private theorem finishOn_ensures (finishing : ∀ u, expects (.file u) = true) (closing : Bool) (file : UserdataId) :
    Ensures (Action.Suits expects) (Files.finishOn closing file) := by
  apply (transferring_ensures _ _ _ _).bind
  rintro ⟨result, t⟩ _
  rcases result with error | _
  · cases error with
    | wouldBlock => exact .pure (.saves rfl (finishing _))
    | _ => exact .throw _
  · exact .pure (.ret _)

private theorem close_ensures (finishing : ∀ u, expects (.file u) = true) (args : List Value) :
    Ensures (Action.Suits expects) (Files.close args) := by
  refine .read fun w => (Ensures.raising _).bind fun file _ => ?_
  cases w.file? file with
  | none => exact finishOn_ensures finishing _ _
  | some h =>
    simp only
    split
    · exact .pure (.ret _)
    · exact finishOn_ensures finishing _ _

private theorem text_ensures (args : List Value) : Ensures (Action.Suits expects) (Files.text args) := by
  refine .read fun w => ?_
  split
  · split
    · split <;> exact .pure (.ret _)
    · exact .pure (.ret _)
  · exact .throw _

private theorem fileAndFormats_ensures (name : String) (args : List Value) :
    Ensures (fun _ => True) (Files.fileAndFormats name args) :=
  .read fun _ => .raising _

end Files

section Io

variable {expects : Saved → Bool}

private theorem openHandle_ensures (mode : OpenMode) (name : String) :
    Ensures (fun _ => True) (Io.openHandle mode name) := by
  intro w
  rw [Io.openHandle, read_apply]
  rcases mode.openFile w.disk name with ⟨_ | _, _⟩
  · exact .answer (.of_same rfl) trivial
  · exact .answer (.of_same rfl) trivial

private theorem select_ensures (which : Io.Default) (args : List Value) :
    Ensures (Action.Suits expects) (Io.select which args) := by
  have changed (u : UserdataId) : Ensures (fun _ => True) (modify fun w => Io.setDefault w which u : WorldM Unit) :=
    fun w => .answer (.of_same (by cases which <;> rfl)) trivial
  have answered : Ensures (Action.Suits expects)
      (getThe World >>= fun w => pure (.ret [.userdata (Io.default w which)]) : WorldM Action) :=
    .read fun _ => .pure (.ret _)
  unfold Io.select
  extract_lets name mode v byName
  have named : Ensures (fun _ => True) byName := by
    simp only [byName]
    split
    · exact .throw _
    · refine (openHandle_ensures _ _).bind fun opened _ => ?_
      cases opened with
      | ok u => exact changed u
      | error e => exact .throw _
  clear_value byName v
  cases v with
  | nil => exact answered
  | userdata u =>
    refine .read fun w => ?_
    split
    · exact (changed u).bind fun _ _ => answered
    · exact named.bind fun _ _ => answered
  | _ => exact named.bind fun _ _ => answered

private theorem kind_ensures (args : List Value) : Ensures (Action.Suits expects) (Io.kind args) := by
  refine (Ensures.raising _).bind fun v _ => ?_
  cases v with
  | userdata u =>
    refine .read fun w => ?_
    cases w.file? u <;> exact .pure (.ret _)
  | _ => exact .pure (.ret _)

end Io

private theorem native_ensures {expects : Saved → Bool} (f : List Value → Except ScriptError (List Value))
    (args : List Value) : Ensures (Action.Suits expects) (Builtin.native f args) :=
  (Ensures.raising _).bind fun _ _ => .pure (.ret _)

private theorem formatOn_ensures (s : Formatting) : Ensures (Action.Suits Builtin.format.expects) (Builtin.formatOn s) := by
  refine (Ensures.raising _).bind fun next _ => ?_
  cases next with
  | finished text => exact .pure (.ret _)
  | textOf value s => exact .pure (.saves rfl rfl)

private theorem substituteOn_suits (s : Substitution) : (Builtin.substituteOn s).Suits Builtin.gsub.expects := by
  unfold Builtin.substituteOn
  split
  · exact .ret _
  · exact .saves rfl rfl
  · exact .saves rfl rfl

theorem invoke_ensures (b : Builtin) (args : List Value) : Ensures (Action.Suits b.expects) (b.invoke args) := by
  cases b with
  | pause => exact .pure (.saves rfl rfl)
  | tostring => exact (Ensures.raising _).bind fun _ _ => .pure (.saves rfl rfl)
  | typeName | byte | char | find | len | lower | firstMatch | rep | reverse | sub | upper => exact native_ensures _ _
  | error => exact .read fun _ => .throw _
  | format => exact (Ensures.raising _).bind fun _ _ => formatOn_ensures _
  | gsub => exact (Ensures.raising _).bind fun _ _ => .pure (substituteOn_suits _)
  | gmatch =>
    exact (Ensures.raising _).bind fun cursor _ => .iteration (c := .matches cursor) trivial
  | fileWrite => exact .read fun _ => (Ensures.raising _).bind fun _ _ => writeOn_ensures (fun _ => rfl) _
  | fileRead => exact (fileAndFormats_ensures _ _).bind fun _ _ => readItems_ensures (fun _ => rfl) _ _ _ _
  | fileFlush => exact .read fun _ => (Ensures.raising _).bind fun _ _ => finishOn_ensures (fun _ => rfl) _ _
  | fileClose => exact close_ensures (fun _ => rfl) args
  | fileLines =>
    apply (fileAndFormats_ensures _ _).bind
    rintro ⟨file, formats⟩ _
    exact .iteration (c := .lines file formats) trivial
  | fileSeek | fileSetvbuf =>
    exact .read fun _ => (Ensures.raising _).bind fun _ _ => controlOn_ensures (fun _ _ => rfl) _ _
  | fileTostring => exact text_ensures args
  | ioWrite | ioRead | ioFlush => exact .read fun _ => .pure (.saves rfl rfl)
  | ioClose => exact .read fun _ => .pure (.saves rfl rfl)
  | ioOpen =>
    refine (Ensures.raising _).bind fun _ _ => (openHandle_ensures _ _).bind fun result _ => ?_
    cases result <;> exact .pure (.ret _)
  | ioInput | ioOutput => exact select_ensures _ _
  | ioType => exact kind_ensures args

theorem resume_ensures {b : Builtin} {s : Saved} (expected : b.expects s = true) (held : List Value) :
    Ensures (Action.Suits b.expects) (b.resume s held) := by
  unfold Builtin.expects at expected
  split at expected
  · exact .pure (.ret _)
  · simp only [Builtin.resume]
    split
    · exact .pure (.ret _)
    · exact .throw _
  · exact (Ensures.raising _).bind fun _ _ => formatOn_ensures _
  · exact (Ensures.raising _).bind fun _ _ => .pure (substituteOn_suits _)
  · exact writeOn_ensures (fun _ => rfl) _
  · exact readItems_ensures (fun _ => rfl) _ _ _ _
  · exact controlOn_ensures (fun _ _ => rfl) _ _
  · exact controlOn_ensures (fun _ _ => rfl) _ _
  · exact finishOn_ensures (fun _ => rfl) _ _
  · exact finishOn_ensures (fun _ => rfl) _ _
  iterate 4 exact .pure (.inl (.inl rfl))
  cases expected

end World

end CoopScript
