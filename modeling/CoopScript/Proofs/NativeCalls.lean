import CoopScript.Host
import CoopScript.Proofs.FixedParts

/-! Native functions: they answer as soon as they are called, with results or a failure, and
never suspend, call back or touch the budget. The library's are the ones that cannot be resumed.
Making `pause` a native function too gives the prompt world, in which nothing waits. -/

namespace CoopScript

namespace Callable

/-- Functions that answer as soon as they are called. -/
def Native : Callable → Prop
  | .builtin b => b.isResumable = false
  | .matches _ => True
  | .host h => ∀ args a, (h.invoke args).outcome = .ok a → a.Immediate
  | .script _ | .lines _ _ => False

/-- Functions that do not suspend by themselves: scripts and native functions. -/
def Steady (c : Callable) : Prop := (∃ p, c = .script p) ∨ c.Native

/-- The function, with a pause that returns its arguments at once. -/
def prompt : Callable → Callable
  | .builtin .pause => .host (HostFunction.native "pause" fun args => { outcome := .ok (.ret args) })
  | c => c

theorem prompt_of_ne {c : Callable} (other : c ≠ .builtin .pause) : c.prompt = c := by
  unfold prompt
  split
  · exact absurd rfl other
  · rfl

end Callable

namespace World

/-- The world in which pauses return at once. -/
def prompt (w : World) : World := { w with functions := w.functions.map Callable.prompt }

theorem prompt_sameObjects (w : World) : w.SameObjects w.prompt := ⟨rfl, rfl⟩

theorem callable_prompt (w : World) (f : FunctionId) : w.prompt.callable f = (w.callable f).prompt := by
  simp only [callable, prompt, Array.getD_eq_getD_getElem?, Array.getElem?_map]
  cases w.functions[f.index]? <;> rfl

theorem callable_prompt_script {w : World} {f : FunctionId} {p : Proto} :
    w.prompt.callable f = .script p ↔ w.callable f = .script p := by
  rw [w.callable_prompt f]
  unfold Callable.prompt
  split
  · next found => simp [found]
  · rfl

theorem proto?_prompt (w : World) (f : FunctionId) : w.prompt.proto? f = w.proto? f := by
  refine Option.ext fun p => ?_
  rw [proto?_eq_some, proto?_eq_some, callable_prompt_script]

theorem prompt_addFunction (w : World) (c : Callable) (other : c.prompt = c) :
    w.prompt.addFunction c = ((w.addFunction c).1, (w.addFunction c).2.prompt) := by
  simp only [addFunction, prompt, Array.size_map, Array.map_push, other]

theorem prompt_setCallable (w : World) (f : FunctionId) (c : Callable) (other : c.prompt = c) :
    w.prompt.setCallable f c = (w.setCallable f c).prompt := by
  simp only [setCallable, prompt, Array.map_setIfInBounds, other]

/-- An operation that comes to the same in the prompt world. -/
def Even {α : Type} (op : WorldM α) : Prop := ∀ w : World, op w.prompt = ((op w).1, (op w).2.prompt)

namespace Even

theorem pure {α : Type} (a : α) : Even (Pure.pure a : WorldM α) := fun _ => rfl

theorem throw {α : Type} (e : Failure) : Even (throw e : WorldM α) := fun _ => rfl

theorem raising {α : Type} (result : Except ScriptError α) : Even (raising result) := by
  intro w
  cases result <;> rfl

theorem bind {α β : Type} {op : WorldM α} {next : α → WorldM β} (first : Even op) (rest : ∀ a, Even (next a)) :
    Even (op >>= next) := by
  intro w
  simp only [bind_apply, first w]
  rcases op w with ⟨_ | a, after⟩
  · rfl
  · exact rest a after

theorem read {α : Type} {next : World → WorldM α} (same : ∀ w : World, next w.prompt = next w)
    (rest : ∀ w, Even (next w)) : Even (getThe World >>= next) := by
  intro w
  change next w.prompt w.prompt = _
  rw [same, rest w w]
  rfl

theorem modify {change : World → World} (same : ∀ w, change w.prompt = (change w).prompt) :
    Even (modify change : WorldM Unit) := by
  intro w
  change (Except.ok (), change w.prompt) = (Except.ok (), (change w).prompt)
  rw [same]

end Even

private theorem openHandle_even (mode : OpenMode) (name : String) : Even (Io.openHandle mode name) := by
  intro w
  have disk : w.prompt.disk = w.disk := rfl
  rw [Io.openHandle, read_apply, read_apply, disk]
  rcases mode.openFile w.disk name with ⟨_ | _, _⟩ <;> rfl

private theorem select_even (which : Io.Default) (args : List Value) : Even (Io.select which args) := by
  have changed (u : UserdataId) : Even (modify fun w => Io.setDefault w which u : WorldM Unit) :=
    .modify fun w => by cases which <;> rfl
  have answered : Even (getThe World >>= fun w => pure (.ret [.userdata (Io.default w which)]) : WorldM Action) :=
    .read (fun _ => by cases which <;> rfl) fun _ => .pure _
  unfold Io.select
  extract_lets name mode v byName
  have named : Even byName := by
    simp only [byName]
    split
    · exact .throw _
    · refine (openHandle_even _ _).bind ?_
      intro opened
      cases opened with
      | ok u => exact changed u
      | error e => exact .throw _
  clear_value byName v
  cases v with
  | nil => exact answered
  | userdata u =>
    refine .read (fun _ => rfl) fun w => ?_
    split
    · exact (changed u).bind fun _ => answered
    · exact named.bind fun _ => answered
  | _ => exact named.bind fun _ => answered

theorem invoke_even {b : Builtin} (native : b.isResumable = false) (args : List Value) : Even (b.invoke args) := by
  cases b with
  | pause | tostring | format | gsub | fileWrite | fileRead | fileFlush | fileClose | fileSeek | fileSetvbuf | ioWrite
  | ioRead | ioFlush | ioClose => cases native
  | typeName | byte | char | find | len | lower | firstMatch | rep | reverse | sub | upper =>
    exact (Even.raising _).bind fun _ => .pure _
  | error => exact .read (fun _ => rfl) fun _ => .throw _
  | gmatch =>
    apply (Even.raising _).bind
    intro cursor w
    rw [read_apply, read_apply, prompt_addFunction w _ rfl]
    rfl
  | fileLines =>
    refine Even.bind (.read (fun _ => rfl) fun _ => .raising _) ?_
    rintro ⟨file, formats⟩ w
    simp only [read_apply]
    rw [prompt_addFunction w _ rfl]
    rfl
  | fileTostring =>
    refine .read (fun _ => rfl) fun w => ?_
    split
    · split
      · split <;> exact .pure _
      · exact .pure _
    · exact .throw _
  | ioOpen =>
    refine (Even.raising _).bind fun _ => (openHandle_even _ _).bind fun result => ?_
    cases result <;> exact .pure _
  | ioInput | ioOutput => exact select_even _ _
  | ioType =>
    refine (Even.raising _).bind fun v => ?_
    cases v with
    | userdata u =>
      refine .read (fun _ => rfl) fun w => ?_
      cases w.file? u <;> exact .pure _
    | _ => exact .pure _

theorem action_even (r : Reply) : Even r.action := by
  refine Even.bind (.modify fun _ => rfl) fun _ => ?_
  split
  · exact .pure _
  · exact .throw _

/-- An operation whose action, if there is one, ends the call. -/
def Answers (op : WorldM Action) : Prop := ∀ (w : World) (a : Action), (op w).1 = .ok a → a.Immediate

/-- A function that cannot be resumed goes on from no state, so its actions save none. -/
theorem invoke_answers {b : Builtin} (native : b.isResumable = false) (args : List Value) : Answers (b.invoke args) := by
  intro w a answered
  have outcome := invoke_ensures b args w
  generalize b.invoke args w = result at answered outcome
  cases outcome with
  | failure => cases answered
  | answer _ suits =>
    cases answered
    rcases suits with immediate | ⟨_, _, expected⟩
    · exact immediate
    · rw [Builtin.isResumable_of_expects expected] at native
      cases native

theorem action_answers {h : HostFunction} (native : (Callable.host h).Native) (args : List Value) :
    Answers (h.invoke args).action := by
  intro w a answered
  cases replied : (h.invoke args).outcome with
  | error e =>
    simp only [Reply.action, replied] at answered
    cases answered
  | ok b =>
    simp only [Reply.action, replied] at answered
    cases answered
    exact native args _ replied

end World

namespace Core

/-- A core and the one of a run without pauses and preemption. -/
structure Mirrors (c d : Core) : Prop where
  world : d.world = c.world.prompt
  stack : d.context.stack = c.context.stack
  draining : c.context.draining = true
  unmetered : d.context.budget.slice = none

/-- An operation that comes to the same in a run without pauses and preemption. -/
def Even {α : Type} (op : CoreM α) : Prop :=
  ∀ c d : Core, c.Mirrors d → (op d).1 = (op c).1 ∧ (op c).2.Mirrors (op d).2

namespace Even

theorem of_local {α : Type} {op : CoreM α} (stacked : Local op) : Even op := by
  intro c d mirrors
  rw [stacked c d mirrors.stack, stacked c c rfl]
  exact ⟨rfl, mirrors.world, rfl, mirrors.draining, mirrors.unmetered⟩

theorem onWorld {α : Type} {op : WorldM α} (even : World.Even op) : Even (onWorld op) := by
  intro c d mirrors
  have same := even c.world
  rw [← mirrors.world] at same
  have result : (op d.world).1 = (op c.world).1 := by rw [same]
  have after : (op d.world).2 = (op c.world).2.prompt := by rw [same]
  exact ⟨result, after, mirrors.stack, mirrors.draining, mirrors.unmetered⟩

theorem bind {α β : Type} {op : CoreM α} {next : α → CoreM β} (first : Even op)
    (rest : ∀ (c : Core) a, (op c).1 = .ok a → Even (next a)) : Even (op >>= next) := by
  intro c d mirrors
  obtain ⟨same, after⟩ := first c d mirrors
  have later := rest c
  simp only [bind_apply]
  rcases ranHere : op c with ⟨here, c'⟩
  rcases ranThere : op d with ⟨there, d'⟩
  simp only [ranHere, ranThere] at same after later
  subst same
  cases there with
  | error e => exact ⟨rfl, after⟩
  | ok a => exact later a rfl c' d' after

end Even

end Core

namespace Core

def Thrifty {α : Type} (op : CoreM α) : Prop := ∀ c : Core, (op c).2.context.budget = c.context.budget

namespace Thrifty

theorem of_local {α : Type} {op : CoreM α} (stacked : Local op) : Thrifty op := by
  intro c
  rw [stacked c c rfl]
  rfl

theorem onWorld {α : Type} (op : WorldM α) : Thrifty (onWorld op) := fun _ => rfl

theorem bind {α β : Type} {op : CoreM α} {next : α → CoreM β} (first : Thrifty op)
    (rest : ∀ (c : Core) a, (op c).1 = .ok a → Thrifty (next a)) : Thrifty (op >>= next) := by
  intro c
  have kept := first c
  have later := rest c
  simp only [bind_apply]
  rcases ran : op c with ⟨_ | a, after⟩ <;> simp only [ran] at kept later
  · exact kept
  · exact (later a rfl after).trans kept

end Thrifty

end Core

theorem Request.serve_even (r : Request) (w : Window) : Core.Even (r.serve w) := by
  intro c d mirrors
  have objects : c.world.SameObjects d.world := mirrors.world ▸ c.world.prompt_sameObjects
  rw [r.serve_local w c d objects mirrors.stack, r.serve_local w c c ⟨rfl, rfl⟩ rfl]
  exact ⟨rfl, mirrors.world, rfl, mirrors.draining, mirrors.unmetered⟩

theorem Request.serve_thrifty (r : Request) (w : Window) : Core.Thrifty (r.serve w) := by
  intro c
  rw [r.serve_local w c c ⟨rfl, rfl⟩ rfl]
  rfl

namespace Action

open CoopScript.Core

variable {a : Action} {f : FunctionId} {w : Window}

theorem Immediate.perform_local (immediate : a.Immediate) : Local (a.perform f w) := by
  rcases immediate with rfl | ⟨results, rfl⟩
  · exact .pure _
  · exact (Local.onStack _).bind fun _ => .pure _

theorem Immediate.perform_returned (immediate : a.Immediate) {c : Core} {move : Move}
    (moved : (a.perform f w c).1 = .ok move) : move = .go .returned := by
  rcases immediate with rfl | ⟨results, rfl⟩
  · exact (Except.ok.inj moved).symm
  · simp only [perform, bind_apply, onStack_apply] at moved
    rcases ran : w.ret results c.context.stack with ⟨_ | _, _⟩ <;> rw [ran] at moved
    · cases moved
    · exact (Except.ok.inj moved).symm

end Action

namespace Callable

open CoopScript.Core

variable {called : Callable} (f : FunctionId) (w : Window)

theorem Native.invoke_even (native : called.Native) : Even (called.invoke f w) := by
  refine (Even.of_local .getStack).bind fun _ s _ => ?_
  cases called with
  | script p => cases native
  | lines file formats => cases native
  | builtin b =>
    refine (Even.onWorld (World.invoke_even native _)).bind fun c a answered => ?_
    exact .of_local (World.invoke_answers native _ c.world a answered).perform_local
  | «matches» cursor =>
    refine Even.bind (.onWorld (.modify fun v => v.prompt_setCallable f _ rfl)) fun _ _ _ => ?_
    exact .of_local (Action.Immediate.perform_local (.inr ⟨_, rfl⟩))
  | host h =>
    refine (Even.onWorld (World.action_even _)).bind fun c a answered => ?_
    exact .of_local (World.action_answers native _ c.world a answered).perform_local

theorem Native.invoke_thrifty (native : called.Native) : Thrifty (called.invoke f w) := by
  refine (Thrifty.of_local .getStack).bind fun _ s _ => ?_
  cases called with
  | script p => cases native
  | lines file formats => cases native
  | builtin b =>
    refine (Thrifty.onWorld _).bind fun c a answered => ?_
    exact .of_local (World.invoke_answers native _ c.world a answered).perform_local
  | «matches» cursor =>
    refine (Thrifty.onWorld _).bind fun _ _ _ => ?_
    exact .of_local (Action.Immediate.perform_local (.inr ⟨_, rfl⟩))
  | host h =>
    refine (Thrifty.onWorld _).bind fun c a answered => ?_
    exact .of_local (World.action_answers native _ c.world a answered).perform_local

theorem Native.invoke_returned (native : called.Native) {c : Core} {move : Move}
    (moved : (called.invoke f w c).1 = .ok move) : move = .go .returned := by
  obtain ⟨a, d, immediate, moved⟩ : ∃ a d, Action.Immediate a ∧ (a.perform f w d).1 = .ok move := by
    cases called with
    | script p => cases native
    | lines file formats => cases native
    | builtin b =>
      simp only [invoke, bind_apply, getStack_apply] at moved
      rcases ran : onWorld (b.invoke (w.values c.context.stack)) c with ⟨_ | a, after⟩ <;> rw [ran] at moved
      · cases moved
      · exact ⟨a, after, World.invoke_answers native _ c.world a (congrArg Prod.fst ran), moved⟩
    | «matches» cursor =>
      exact ⟨.ret cursor.advance.1, { c with world := c.world.setCallable f (.matches cursor.advance.2) },
        .inr ⟨_, rfl⟩, moved⟩
    | host h =>
      simp only [invoke, bind_apply, getStack_apply] at moved
      rcases ran : onWorld (h.invoke (w.values c.context.stack)).action c with ⟨_ | a, after⟩ <;> rw [ran] at moved
      · cases moved
      · exact ⟨a, after, World.action_answers native _ c.world a (congrArg Prod.fst ran), moved⟩
  exact immediate.perform_returned moved

end Callable

end CoopScript
