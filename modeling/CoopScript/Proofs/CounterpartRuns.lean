import CoopScript.Proofs.CallExtent
import CoopScript.Proofs.CounterpartSteps

/-! Runs of counterparts. Two machines that are counterparts take their steps together, functions
come into being in pairs, and where one comes to rest so does the other. The one thing that could
set them apart is the place of a function that has come into being, so the run must not tell it. -/

namespace CoopScript

/-- Logs are not looked at. -/
theorem World.Twin.logged {P : Pairing} {w v : World} (twin : w.Twin P v) (here there : List String) :
    World.Twin P { w with log := here } { v with log := there } :=
  { oneToOne := twin.oneToOne
    tables := twin.tables
    entries := twin.entries
    handlers := twin.handlers
    objects := twin.objects
    objectHandlers := twin.objectHandlers
    functions := twin.functions
    here := twin.here
    there := twin.there }

theorem Core.Twin.logged {P : Pairing} {c d : Core} (twin : c.Twin P d) (here there : List String) :
    Core.Twin P { c with world := { c.world with log := here } } { d with world := { d.world with log := there } } :=
  ⟨twin.world.logged here there, twin.stack, twin.budget, twin.draining⟩

/-- A drain starts with a full budget on both sides. -/
theorem Core.Twin.refilled {P : Pairing} {c d : Core} (twin : c.Twin P d) :
    Core.Twin P { c with context := { c.context with budget := c.context.budget.refill, draining := true } }
      { d with context := { d.context with budget := d.context.budget.refill, draining := true } } := by
  refine ⟨twin.world, twin.stack, ?_, rfl⟩
  obtain ⟨n, same⟩ := twin.budget
  exact ⟨n, congrArg Budget.refill same⟩

/-- The frames are counterparts one by one. -/
abbrev Frames.Twin (P : Pairing) : List Frame → List Frame → Prop := List.Forall₂ (Frame.Twin P)

theorem Frames.Twin.mono {P Q : Pairing} {xs ys : List Frame} (within : P.Within Q) (twins : Frames.Twin P xs ys) :
    Frames.Twin Q xs ys :=
  List.Forall₂.imp (fun _ _ twin => twin.mono within) twins

theorem Frame.Twin.activity {P : Pairing} {x y : Frame} (twin : x.Twin P y) : x.activity.Twin P y.activity := by
  obtain ⟨f, w, state⟩ := x
  obtain ⟨g, _, state'⟩ := y
  obtain ⟨function, rfl, states⟩ := twin
  cases states with
  | none => exact .enter function _
  | some saved => exact .resume function _ saved

theorem Callable.Twin.isResumable {P : Pairing} {c c' : Callable} (twin : c.Twin P c') :
    c'.isResumable = c.isResumable := by
  cases twin <;> rfl

theorem Callable.Twin.name {P : Pairing} {c c' : Callable} (twin : c.Twin P c') : c'.name = c.name := by
  cases twin <;> rfl

namespace Machine

structure Twin (P : Pairing) (m n : Machine) : Prop where
  core : m.core.Twin P n.core
  activity : m.activity.Twin P n.activity
  callers : Frames.Twin P m.callers n.callers
  pending : Frames.Twin P m.pending n.pending

/-- From the machine on, through all drains, the place of a function that the pairing does not fix
is never told. -/
def Discreet (P : Pairing) (m : Machine) : Prop := ∀ k, (m.driven k).activity.Discreet P (m.driven k).core

/-- Nothing is asked for a text at the moment, and no error is being raised. -/
def isQuiet (m : Machine) : Bool :=
  match m.activity with
  | .dispatch (.text _) _ => false
  | .enter f _ =>
    match m.core.world.callable f with
    | .builtin .error => false
    | _ => true
  | _ => true

/-- What machines leave that came to rest together. If they can go on, they do so discreetly. -/
structure Rested (P : Pairing) (halt : Halt) (m n : Machine) : Prop where
  counterparts : ∃ Q, P.Within Q ∧ m.core.Twin Q n.core ∧ Frames.Twin Q m.pending n.pending
  discreet : ∀ reason, halt = .paused reason → m.restarted.Discreet P

variable {P : Pairing} {m n next last : Machine} {halt : Halt}

namespace Discreet

theorem now (discreet : m.Discreet P) : m.activity.Discreet P m.core := discreet 0

theorem stepped (discreet : m.Discreet P) (moved : m.step = .inl next) : next.Discreet P := by
  intro k
  have later := discreet (k + 1)
  simp only [driven, moved] at later
  exact later

theorem restarted {reason : SuspendReason} (discreet : m.Discreet P) (halted : m.step = .inr (.paused reason, last)) :
    last.restarted.Discreet P := by
  intro k
  have later := discreet (k + 1)
  simp only [driven, halted] at later
  exact later

theorem mono {Q : Pairing} (within : P.Within Q) (discreet : m.Discreet P) : m.Discreet Q :=
  fun k => (discreet k).mono within

/-- Where a run has ended it stays, so it is discreet if it was quiet until then. -/
theorem of_quiet {n : Nat} (quiet : ∀ k ≤ n, (m.driven k).isQuiet = true) (rests : m.driven (n + 1) = m.driven n) :
    m.Discreet P := by
  have stays (k : Nat) : m.driven (n + k) = m.driven n := by
    induction k with
    | zero => rfl
    | succ k ih => rw [← Nat.add_assoc, driven_add, ih, ← driven_add, rests]
  have all (k : Nat) : (m.driven k).isQuiet = true := by
    by_cases before : k ≤ n
    · exact quiet k before
    · obtain ⟨more, rfl⟩ := Nat.exists_eq_add_of_le (Nat.le_of_not_le before)
      rw [stays]
      exact quiet n (Nat.le_refl n)
  intro k
  have silent := all k
  generalize m.driven k = now at silent
  refine ⟨?_, ?_⟩
  · intro v w asked
    simp only [isQuiet, asked] at silent
    cases silent
  · intro f w entered raises
    simp only [isQuiet, entered, raises] at silent
    cases silent

end Discreet

/-- Machines that are counterparts, with a discreet run ahead. Functions may have come into being. -/
def Alongside (P : Pairing) (m n : Machine) : Prop := m.Discreet P ∧ ∃ Q, P.Within Q ∧ m.Twin Q n

/-- Counterparts since the worlds were these, where functions may have come into being. -/
def Since (P : Pairing) (w v : World) (m n : Machine) : Prop := ∃ Q, P.Grows w v Q ∧ m.Twin Q n

/-- What counterparts leave that have come to rest. -/
def Resting (P : Pairing) (w v : World) (m n : Machine) : Prop :=
  ∃ Q, P.Grows w v Q ∧ m.core.Twin Q n.core ∧ Frames.Twin Q m.pending n.pending

/-- Where nothing is active, the same frame goes on in both, or neither can. -/
theorem Twin.of_returned (twin : m.Twin P n) (returned : m.activity = .returned) (w v : World) :
    Lockstep (Since P w v) (fun _ => Resting P w v) m.step n.step := by
  have still : P.Grows w v P := .refl P w v
  obtain ⟨core, activity, callers, pending⟩ := m
  obtain ⟨core', activity', callers', pending'⟩ := n
  obtain ⟨cores, activities, waiting, saved⟩ := twin
  simp only at returned cores activities waiting saved
  subst returned
  cases activities
  cases waiting with
  | cons frame waiting => exact .moved ⟨P, still, cores, frame.activity, waiting, saved⟩
  | nil =>
    cases saved with
    | nil => exact .rested ⟨P, still, cores, .nil⟩
    | @cons x y pending pending' frame saved =>
      have called := cores.world.functions _ _ frame.function
      have started : y.state.isSome = x.state.isSome := by
        have states := frame.state
        generalize x.state = here at states
        generalize y.state = there at states
        cases states <;> rfl
      simp only [step, started, called.isResumable, called.name]
      by_cases refused : (x.state.isSome && !(core.world.callable x.function).isResumable) = true
      · simp only [refused, if_true]
        exact .rested ⟨P, still, cores.logged _ _, .cons frame saved⟩
      · simp only [refused]
        exact .moved ⟨P, still, cores, frame.activity, .nil, saved⟩

/-- Machines that are counterparts take a step together, unless the place of a function is told. -/
theorem Twin.step (twin : m.Twin P n) (discreet : m.activity.Discreet P m.core) :
    Lockstep (Since P m.core.world n.core.world) (fun _ => Resting P m.core.world n.core.world) m.step n.step := by
  by_cases returned : m.activity = .returned
  · exact twin.of_returned returned _ _
  have working : n.activity ≠ .returned := by
    intro resting
    have active := twin.activity
    rw [resting] at active
    generalize m.activity = a at active returned
    cases active
    exact returned rfl
  obtain ⟨Q, grows, likewise, cores⟩ := Activity.step_follows twin.activity twin.core discreet
  -- the step may have brought an iteration into being, so what waits is seen under the larger pairing
  have waiting := twin.callers.mono grows.toWithin
  have saved := twin.pending.mono grows.toWithin
  rw [step_working (m := m) rfl returned, step_working (m := n) rfl working]
  generalize n.activity.step n.core = there at likewise cores
  generalize m.activity.step m.core = here at likewise cores
  obtain ⟨result, c⟩ := here
  obtain ⟨result', d⟩ := there
  cases likewise with
  | error e => exact .rested ⟨Q, grows, cores.logged _ _, saved⟩
  | ok moves =>
    cases moves with
    | go active => exact .moved ⟨Q, grows, cores, active, waiting, saved⟩
    | call frame request w => exact .moved ⟨Q, grows, cores, .dispatch request w, .cons frame waiting, saved⟩
    | suspend reason frame =>
      simp only [after, suspend]
      rw [cores.draining]
      by_cases draining : c.context.draining = true
      · simp only [draining, if_true]
        exact .rested ⟨Q, grows, cores.logged _ _, .cons frame (List.rel_append waiting saved)⟩
      · simp only [draining]
        exact .rested ⟨Q, grows, cores.logged _ _, saved⟩

/-- Where the run ahead is discreet, it stays so. -/
theorem Alongside.step (alongside : m.Alongside P n) : Lockstep (Alongside P) (Rested P) m.step n.step := by
  obtain ⟨discreet, Q, within, twin⟩ := alongside
  have together := twin.step (discreet.now.mono within)
  generalize moved : m.step = here at together ⊢
  generalize n.step = there at together ⊢
  cases together with
  | moved since =>
    obtain ⟨R, grows, twin⟩ := since
    exact .moved ⟨discreet.stepped moved, R, within.trans grows.toWithin, twin⟩
  | rested resting =>
    obtain ⟨R, grows, cores, saved⟩ := resting
    refine .rested ⟨⟨R, within.trans grows.toWithin, cores, saved⟩, ?_⟩
    rintro reason rfl
    exact discreet.restarted moved

/-- The next drain starts from counterparts again. -/
theorem Alongside.restarted {Q : Pairing} (within : P.Within Q) (cores : m.core.Twin Q n.core)
    (saved : Frames.Twin Q m.pending n.pending) (discreet : m.restarted.Discreet P) :
    m.restarted.Alongside Q n.restarted :=
  ⟨discreet.mono within, Q, .refl Q, cores.refilled, .returned, .nil, saved⟩

/-- Counterparts come to rest together. -/
theorem Alongside.run (alongside : m.Alongside P n) (fuel : Nat) : Abreast (Rested P) (m.run fuel) (n.run fuel) :=
  run_abreast (fun _ _ alongside => alongside.step) alongside fuel

end Machine

end CoopScript
