import CoopScript.Environment
import CoopScript.Proofs.ClearRegisters

/-! Safety of the suspension protocol. Misuse of suspension is found out only when a frame is
resumed: its function turns out not to be resumable, or not to know the state. An executor that
runs verified scripts and the functions of the library never gets there. -/

namespace CoopScript

namespace World

/-- Setting something up in a world adds only verified scripts and library functions. -/
def Honest {α : Type} (op : StateM World α) : Prop := ∀ w : World, w.Shipped → (op w).2.Shipped

theorem Honest.bind {α β : Type} {op : StateM World α} {next : α → StateM World β} (first : Honest op)
    (rest : ∀ a, Honest (next a)) : Honest (op >>= next) :=
  fun w shipped => rest _ _ (first w shipped)

theorem Honest.pure {α : Type} (a : α) : Honest (Pure.pure a : StateM World α) := fun _ shipped => shipped

theorem Honest.of_same {α : Type} {op : StateM World α} (same : ∀ w, (op w).2.functions = w.functions) :
    Honest op := by
  intro w shipped
  rw [Shipped, same]
  exact shipped

theorem newFunction_honest {c : Callable} (shipped : c.Shipped) : Honest (newFunction c) := by
  intro w before other member
  rcases Array.mem_push.mp member with member | rfl
  · exact before other member
  · exact shipped

private theorem builtin_honest (b : Builtin) : Honest (newFunction (.builtin b)) := newFunction_honest trivial

theorem entries_honest (list : List (String × Builtin)) : Honest (entries list) := by
  induction list with
  | nil => exact .pure _
  | cons first rest ih =>
    rw [entries, List.mapM_cons]
    exact ((builtin_honest first.2).bind fun _ => .pure _).bind fun _ => ih.bind fun _ => .pure _

theorem newTable_honest (list : List (String × Value)) : Honest (newTable list) := .of_same fun _ => rfl

theorem installFiles_honest (input output error : Handle) : Honest (installFiles input output error) := by
  have file (h : Handle) : Honest (newFile h) := .of_same fun _ => rfl
  refine (builtin_honest _).bind fun _ => (builtin_honest _).bind fun _ => ?_
  refine (builtin_honest _).bind fun _ => (builtin_honest _).bind fun _ => ?_
  refine (entries_honest _).bind fun _ => (newTable_honest _).bind fun _ => (builtin_honest _).bind fun _ => ?_
  refine (newTable_honest _).bind fun _ => Honest.bind (.of_same fun _ => rfl) fun _ => ?_
  exact (file _).bind fun _ => (file _).bind fun _ => (file _).bind fun _ => .of_same fun _ => rfl

theorem environment_honest : Honest environment := by
  refine (entries_honest _).bind fun _ => Honest.bind ?_ fun _ => Honest.bind ?_ fun _ => newTable_honest _
  · exact (entries_honest _).bind fun _ => newTable_honest _
  · exact (entries_honest _).bind fun _ => Honest.bind (.of_same fun _ => rfl) fun _ => newTable_honest _

end World

open CoopScript.Core in
/-- What a function expects is all that it goes on from. -/
theorem Callable.resume_unexpected {called : Callable} (shipped : called.Shipped) {saved : Saved}
    (unexpected : called.expects saved = false) (f : FunctionId) (w : Window) (c : Core) :
    ∃ misuse, called.resume f w saved c = (.error (.protocol misuse), c) := by
  cases called with
  | script p => cases saved <;> first | exact ⟨_, rfl⟩ | cases unexpected
  | «matches» cursor => exact ⟨_, rfl⟩
  | lines file formats => cases saved <;> first | exact ⟨_, rfl⟩ | cases unexpected
  | host h => cases shipped
  | builtin b =>
    have refused := Builtin.resume_unexpected unexpected (w.values c.context.stack) c.world
    refine ⟨if b.isResumable then .stateMismatch b.name else .notSuspendable b.name, ?_⟩
    simp only [resume, Core.bind_apply, getStack_apply, onWorld, ExceptT.run, refused]

namespace Executor

variable {w v : World} {e after : Executor} {fuel : Nat} {failure : Failure}

theorem drain_ordinary (sound : e.Sound w) (paused : e.isPaused = true)
    (involved : ∀ c ∈ (e.machine w).involved fuel, c.Shipped) (ran : drain fuel w e = some (.error failure, v, after)) :
    failure.Ordinary := by
  have pending : e.callStack ≠ [] := by simpa [isPaused] using paused
  obtain ⟨halt, last, rested, rfl, same, rfl⟩ := run_of_drain pending ran
  obtain ⟨final, during, works, halted⟩ := Machine.During.of_run .here involved rested
  have holds := during.holds (Begins.drain.holds sound)
  cases halt with
  | finished | paused _ => cases same
  | failed e =>
    cases same
    have ongoing (returned : final.activity = .returned) : final.frames ≠ [] := by
      intro nothing
      rw [Machine.step_finished returned nothing] at halted
      cases halted
    have sound : final.Holds .sound [] := ⟨holds.state.fits, holds.activity, holds.frames⟩
    exact sound.ordinary works ongoing (during.draining rfl) halted

/-- The frames of a pending call are of functions that can be resumed, with states that they
expect, and so a drain of the call never fails for misuse of suspension. -/
theorem Reachable.protocol_safe (reachable : Reachable w e) :
    (∀ frame ∈ e.callStack, ∀ saved, frame.state = some saved →
      (w.callable frame.function).isResumable = true ∧ (w.callable frame.function).expects saved = true) ∧
    ∀ fuel failure v after, e.isPaused = true → (∀ c ∈ (e.machine w).involved fuel, c.Shipped) →
      drain fuel w e = some (.error failure, v, after) → ∀ misuse, failure ≠ .protocol misuse := by
  refine ⟨?_, ?_⟩
  · intro frame member saved started
    have expected := (reachable.sound.frames frame member saved started).expected
    exact ⟨Callable.isResumable_of_expects expected, expected⟩
  · intro fuel failure v after paused involved ran
    exact drain_ordinary reachable.sound paused involved ran

private def requesting : Proto where
  name := "requesting"
  params := 0
  regs := 1
  constants := [.function ⟨26⟩]
  code := [.loadConst 0 0, .call 0 0 1, .ret 0 1]

private def installation : StateM World FunctionId := do
  World.installFiles (.ofStream (some [.block]) none true) (.ofStream none none true) (.ofStream none none true)
  let _ ← World.environment
  World.newFunction (.script requesting)

private def equipped : World := (installation {}).2

private def listening : Executor :=
  (Executor.pushCall { context := { stack := ⟨#[.nil, .nil, .nil], 0⟩, budget := Budget.new {} } } ⟨33⟩ []).2

/-- A script that asks for a line which the standard input does not have yet is suspended with the
function it called and the method that this one forwards to. -/
theorem Reachable.protocol_safe_listening : ∃ v paused, drain 20 equipped listening = some (.ok .paused, v, paused) ∧
    paused.callStack.map Frame.function = [⟨1⟩, ⟨26⟩, ⟨33⟩] ∧ ∀ frame ∈ paused.callStack, ∀ saved,
      frame.state = some saved → (v.callable frame.function).isResumable = true ∧
        (v.callable frame.function).expects saved = true := by
  have verified : (Callable.script requesting).Shipped := by decide
  have honest : World.Honest installation :=
    (World.installFiles_honest _ _ _).bind fun _ => World.environment_honest.bind fun _ => World.newFunction_honest verified
  have shipped : equipped.Shipped := honest {} (by simp [World.Shipped])
  have made : Executor.new { stackCapacity := 3 } = .ok _ := rfl
  have reachable : Reachable equipped listening := .pushed (.fresh made) ⟨33⟩ []
  obtain ⟨v, paused, ran, functions⟩ : ∃ v paused, drain 20 equipped listening = some (.ok .paused, v, paused) ∧
      paused.callStack.map Frame.function = [⟨1⟩, ⟨26⟩, ⟨33⟩] := ⟨_, _, by cbv, by cbv⟩
  have later : Reachable v paused := .drained reachable (involved_of_shipped shipped _ 20) ran
  exact ⟨v, paused, ran, functions, later.protocol_safe.1⟩

end Executor

end CoopScript
