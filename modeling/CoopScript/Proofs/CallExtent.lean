import CoopScript.Proofs.FixedParts
import CoopScript.Proofs.ScriptDiscipline

/-! The extent of a call: the machines that a run passes through from the moment a function is
entered until it has returned to the frames that wait for it, calls within calls, suspensions and
later drains included. What single steps keep holds throughout the extent. -/

namespace CoopScript

/-- Where a move leads, and what it leaves waiting. -/
def Move.Satisfies (activity : Activity → Prop) (waiting : Frame → Prop) : Move → Prop
  | .go a => activity a
  | .call frame r w => waiting frame ∧ activity (.dispatch r w)
  | .suspend _ frame => waiting frame

theorem Move.Satisfies.mono {activity activity' : Activity → Prop} {waiting waiting' : Frame → Prop} {move : Move}
    (active : ∀ a, activity a → activity' a) (waits : ∀ frame, waiting frame → waiting' frame)
    (satisfies : move.Satisfies activity waiting) : move.Satisfies activity' waiting' := by
  cases move with
  | go a => exact active a satisfies
  | call frame r w => exact ⟨waits frame satisfies.1, active _ satisfies.2⟩
  | suspend reason frame => exact waits frame satisfies

namespace Activity

/-- If a function is at work, it is one of those allowed. -/
structure Runs (only : Callable → Prop) (w : World) (a : Activity) : Prop where
  allowed : ∀ f ∈ a.function?, only (w.callable f)

theorem Runs.of_shipped {w : World} (shipped : w.Shipped) (a : Activity) : a.Runs Callable.Shipped w :=
  ⟨fun f _ => shipped.callable f⟩

theorem Runs.mono {only more : Callable → Prop} {w : World} {a : Activity} (weaker : ∀ c, only c → more c)
    (runs : a.Runs only w) : a.Runs more w :=
  ⟨fun f active => weaker _ (runs.allowed f active)⟩

end Activity

/-- Frames can wait while one core becomes the other: functions that can be resumed are retained,
and there are as many slots. -/
structure Core.Sustains (c d : Core) : Prop where
  retains : c.world.Retains d.world
  capacity : d.context.stack.capacity = c.context.stack.capacity

theorem Core.Sustains.refl (c : Core) : c.Sustains c := ⟨fun _ _ => rfl, rfl⟩

theorem Core.Sustains.trans {c d e : Core} (first : c.Sustains d) (rest : d.Sustains e) : c.Sustains e :=
  ⟨first.retains.trans rest.retains, rest.capacity.trans first.capacity⟩

theorem Activity.step_sustains {a : Activity} {c d : Core} {result : Except Failure Move}
    (stepped : a.step c = (result, d)) : c.Sustains d := by
  have grows := (a.step_keeps c).functions
  have confined := a.step_confined (fun _ _ => Nat.zero_le _) c
  rw [stepped] at grows confined
  exact ⟨grows.retains, confined.capacity⟩

/-- A property of the registers, of the activity, and of each frame that waits, which the steps of
the allowed functions keep. Frames know of the registers only how many there are, and of the world
only the functions that can be resumed. -/
structure Invariant (only : Callable → Prop) where
  state : RegisterStack → Prop
  activity : World → RegisterStack → Activity → Prop
  frame : World → Nat → Frame → Prop
  waits : ∀ {w v : World} {capacity : Nat} {fr : Frame}, w.Retains v → frame w capacity fr → frame v capacity fr
  returned : ∀ {w : World} {s : RegisterStack}, activity w s .returned
  taken : ∀ {w : World} {s : RegisterStack} {fr : Frame}, frame w s.capacity fr → activity w s fr.activity
  stepped : ∀ {c d : Core} {a : Activity} {result : Except Failure Move}, a ≠ .returned → a.Runs only c.world →
    state c.context.stack → activity c.world c.context.stack a → a.step c = (result, d) →
    state d.context.stack ∧ ∀ move, result = .ok move →
      move.Satisfies (activity d.world d.context.stack) (frame d.world d.context.stack.capacity)

namespace Machine

/-- The machine of the next drain, in a world that others may have worked on in between. -/
def restartedIn (m : Machine) (v : World) : Machine := { m.restarted with core := { m.restarted.core with world := v } }

/-- The machines in the extent of a call that the frames `base` wait for, as long as only the
allowed functions are at work. -/
inductive During (only : Callable → Prop) (base : List Frame) (first : Machine) : Machine → Prop where
  | here : During only base first first
  | next {m next : Machine} (before : During only base first m) (works : m.activity.Runs only m.core.world)
      (ongoing : m.activity = .returned → m.frames ≠ base) (moved : m.step = .inl next) : During only base first next
  | resumed {m paused : Machine} {reason : SuspendReason} {v : World} (before : During only base first m)
      (works : m.activity.Runs only m.core.world) (halted : m.step = .inr (.paused reason, paused))
      (meanwhile : paused.core.world.Retains v) : During only base first (paused.restartedIn v)

/-- The invariant holds of the machine and of the frames that wait inside the extent. -/
structure Holds {only : Callable → Prop} (inv : Invariant only) (base : List Frame) (m : Machine) : Prop where
  state : inv.state m.core.context.stack
  activity : inv.activity m.core.world m.core.context.stack m.activity
  frames : ∃ inner, m.frames = inner ++ base ∧
    ∀ frame ∈ inner, inv.frame m.core.world m.core.context.stack.capacity frame

namespace Holds

variable {only : Callable → Prop} {inv : Invariant only} {base : List Frame} {m : Machine}

private theorem kept_by_step {a : Activity} {c d : Core} {result : Except Failure Move} (stepped : a.step c = (result, d))
    {frame : Frame} (waits : inv.frame c.world c.context.stack.capacity frame) :
    inv.frame d.world d.context.stack.capacity frame := by
  have sustains := Activity.step_sustains stepped
  rw [sustains.capacity]
  exact inv.waits sustains.retains waits

theorem next {next : Machine} (holds : m.Holds inv base) (works : m.activity.Runs only m.core.world)
    (ongoing : m.activity = .returned → m.frames ≠ base) (moved : m.step = .inl next) : next.Holds inv base := by
  obtain ⟨inner, waiting, inside⟩ := holds.frames
  cases Step.of_step moved with
  | @returned frame callers pending returned waits =>
    cases inner with
    | nil => exact absurd waiting (ongoing returned)
    | cons first inner =>
      obtain ⟨rfl, rest⟩ := List.cons.inj (waits.symm.trans waiting)
      refine ⟨holds.state, inv.taken (inside _ List.mem_cons_self), inner, rest, ?_⟩
      intro other member
      exact inside other (List.mem_cons_of_mem _ member)
  | went working stepped =>
    obtain ⟨state, moves⟩ := inv.stepped working works holds.state holds.activity stepped
    refine ⟨state, moves _ rfl, inner, waiting, ?_⟩
    intro other member
    exact kept_by_step stepped (inside other member)
  | called working stepped =>
    obtain ⟨state, moves⟩ := inv.stepped working works holds.state holds.activity stepped
    obtain ⟨waits, active⟩ := moves _ rfl
    refine ⟨state, active, _ :: inner, congrArg (_ :: ·) waiting, ?_⟩
    intro other member
    rcases List.mem_cons.mp member with rfl | member
    · exact waits
    · exact kept_by_step stepped (inside other member)

theorem halted (holds : m.Holds inv base) (works : m.activity.Runs only m.core.world) {halt : Halt} {last : Machine}
    (halted : m.step = .inr (halt, last)) : inv.state last.core.context.stack := by
  cases Halted.of_step halted with
  | finished | refused => exact holds.state
  | failed working stepped | stranded working stepped | paused working stepped =>
    exact (inv.stepped working works holds.state holds.activity stepped).1

/-- The frames that a suspension saves are the ones of the extent, and below them those that
wait for the call. -/
theorem saved (holds : m.Holds inv base) (works : m.activity.Runs only m.core.world) {reason : SuspendReason}
    {paused : Machine} (halted : m.step = .inr (.paused reason, paused)) : ∃ inner, paused.pending = inner ++ base ∧
      ∀ frame ∈ inner, inv.frame paused.core.world paused.core.context.stack.capacity frame := by
  obtain ⟨inner, waiting, inside⟩ := holds.frames
  cases Halted.of_step halted with
  | @paused _ _ core working stepped lines =>
    obtain ⟨_, moves⟩ := inv.stepped working works holds.state holds.activity stepped
    refine ⟨_ :: inner, congrArg (_ :: ·) waiting, ?_⟩
    intro other member
    -- the watchers of a suspension log it, which changes no function
    refine inv.waits (w := core.world) (fun _ _ => rfl) ?_
    rcases List.mem_cons.mp member with rfl | member
    · exact moves _ rfl
    · exact kept_by_step stepped (inside other member)

theorem restarted (holds : m.Holds inv base) (works : m.activity.Runs only m.core.world) {reason : SuspendReason}
    {paused : Machine} {v : World} (halted : m.step = .inr (.paused reason, paused))
    (meanwhile : paused.core.world.Retains v) : (paused.restartedIn v).Holds inv base := by
  obtain ⟨inner, waiting, inside⟩ := holds.saved works halted
  have state : inv.state paused.core.context.stack := holds.halted works halted
  refine ⟨state, inv.returned, inner, waiting, ?_⟩
  intro frame member
  exact inv.waits meanwhile (inside frame member)

end Holds

namespace During

variable {only : Callable → Prop} {base : List Frame} {first m : Machine}

/-- What holds when the function is entered, and is kept by every step, holds in the whole extent. -/
theorem holds {inv : Invariant only} (during : During only base first m) (start : first.Holds inv base) :
    m.Holds inv base := by
  induction during with
  | here => exact start
  | next _ works ongoing moved ih => exact ih.next works ongoing moved
  | resumed _ works halted meanwhile ih => exact ih.restarted works halted meanwhile

theorem mono {more : Callable → Prop} (weaker : ∀ c, only c → more c) (during : During only base first m) :
    During more base first m := by
  induction during with
  | here => exact .here
  | next _ works ongoing moved ih => exact ih.next (works.mono weaker) ongoing moved
  | resumed _ works halted meanwhile ih => exact ih.resumed (works.mono weaker) halted meanwhile

theorem draining (during : During only base first m) (start : first.core.context.draining = true) :
    m.core.context.draining = true := by
  induction during with
  | here => exact start
  | next _ _ _ moved ih => exact (step_keeps moved).draining.trans ih
  | resumed => rfl

/-- Where nothing waits for a call, it is on as long as the run goes on. -/
theorem step_next {next : Machine} (during : During only [] first m) (works : m.activity.Runs only m.core.world)
    (moved : m.step = .inl next) : During only [] first next := by
  refine during.next works ?_ moved
  intro returned nothing
  rw [step_finished returned nothing] at moved
  cases moved

theorem of_run {fuel : Nat} {result : Halt × Machine} (during : During only [] first m)
    (involved : ∀ c ∈ m.involved fuel, only c) (ran : m.run fuel = some result) :
    ∃ final, During only [] first final ∧ final.activity.Runs only final.core.world ∧ final.step = .inr result := by
  induction fuel generalizing m with
  | zero => cases ran
  | succ fuel ih =>
    have works : m.activity.Runs only m.core.world := by
      refine ⟨fun f active => ?_⟩
      exact involved _ (mem_involved active fuel)
    cases moved : m.step with
    | inl next =>
      rw [run_inl moved] at ran
      refine ih (during.step_next works moved) ?_ ran
      intro c member
      exact involved c (mem_observed_later moved member)
    | inr halted =>
      obtain ⟨_, _⟩ := halted
      rw [run_inr moved] at ran
      cases ran
      exact ⟨m, during, works, moved⟩

end During

theorem step_sustains {m next : Machine} (moved : m.step = .inl next) : m.core.Sustains next.core :=
  step_preserves Core.Sustains.refl (fun _ _ => Activity.step_sustains rfl) moved

theorem halted_sustains {m last : Machine} {halt : Halt} (halted : m.step = .inr (halt, last)) :
    m.core.Sustains last.core :=
  halted_preserves Core.Sustains.refl Core.Sustains.trans (fun _ _ => Activity.step_sustains rfl)
    (fun _ _ => ⟨fun _ _ => rfl, rfl⟩) halted

theorem run_sustains {m last : Machine} {halt : Halt} {fuel : Nat} (ran : m.run fuel = some (halt, last)) :
    m.core.Sustains last.core :=
  run_preserves Core.Sustains.refl Core.Sustains.trans (fun _ _ => Activity.step_sustains rfl)
    (fun _ _ => ⟨fun _ _ => rfl, rfl⟩) ran

theorem During.sustains {only : Callable → Prop} {base : List Frame} {first m : Machine}
    (during : During only base first m) : first.core.Sustains m.core := by
  induction during with
  | here => exact .refl _
  | next _ _ _ moved ih => exact ih.trans (step_sustains moved)
  | resumed _ _ halted meanwhile ih => exact (ih.trans (halted_sustains halted)).trans ⟨meanwhile, rfl⟩

/-- Where all functions are verified or of the library, no others are ever at work. -/
theorem involved_shipped {m : Machine} (shipped : m.core.world.Shipped) (n : Nat) : ∀ c ∈ m.involved n, c.Shipped := by
  intro c member
  obtain ⟨moment, shipped, f, rfl⟩ := exists_of_mem_involved (P := fun moment => moment.core.world.Shipped)
    (fun shipped moved => (step_keeps moved).functions.shipped shipped) shipped member
  exact shipped.callable f

/-- The machine after some steps, each suspension followed by a drain. -/
def driven : Nat → Machine → Machine
  | 0, m => m
  | n + 1, m =>
    match m.step with
    | .inl next => next.driven n
    | .inr (.paused _, paused) => paused.restarted.driven n
    | .inr _ => m

theorem driven_inl {m next : Machine} (moved : m.step = .inl next) (n : Nat) : m.driven (n + 1) = next.driven n := by
  simp only [driven, moved]

theorem driven_paused {m paused : Machine} {reason : SuspendReason} (halted : m.step = .inr (.paused reason, paused))
    (n : Nat) : m.driven (n + 1) = paused.restarted.driven n := by
  simp only [driven, halted]

theorem driven_add (m : Machine) (j k : Nat) : m.driven (j + k) = (m.driven j).driven k := by
  induction j generalizing m with
  | zero => rw [Nat.zero_add, driven]
  | succ j ih =>
    rw [Nat.succ_add]
    cases moved : m.step with
    | inl next => simp only [driven, moved, ih]
    | inr result =>
      obtain ⟨halt, last⟩ := result
      cases halt with
      | paused reason => simp only [driven, moved, ih]
      | finished | failed e =>
        -- the run has ended, and stays where it is
        cases k <;> simp only [driven, moved]

theorem step_driven {m : Machine} {n : Nat} (moves : (m.driven n).step.isLeft = true) :
    (m.driven n).step = .inl (m.driven (n + 1)) := by
  obtain ⟨next, moved⟩ := Sum.isLeft_iff.mp moves
  rw [driven_add m n 1, driven_inl moved, driven, moved]

theorem driven_finished {m : Machine} {n : Nat} (returned : (m.driven n).activity = .returned)
    (none : (m.driven n).frames = []) : m.driven (n + 1) = m.driven n := by
  rw [driven_add m n 1, driven, step_finished returned none]

/-- A machine that is driven stays in the extent of a call, as long as the call has not returned to
the frames that wait for it. -/
theorem During.driven_within {base : List Frame} {first m : Machine} (shipped : m.core.world.Shipped)
    (during : During Callable.Shipped base first m) (n : Nat)
    (ongoing : ∀ k < n, (m.driven k).activity = .returned → (m.driven k).frames = base → base = []) :
    During Callable.Shipped base first (m.driven n) ∧ (m.driven n).core.world.Shipped := by
  induction n generalizing m with
  | zero => exact ⟨during, shipped⟩
  | succ n ih =>
    have works := Activity.Runs.of_shipped shipped m.activity
    cases moved : m.step with
    | inl next =>
      rw [driven_inl moved]
      refine ih ((step_keeps moved).functions.shipped shipped) (during.next works ?_ moved) ?_
      · intro returned same
        rw [step_finished returned (same.trans (ongoing 0 (Nat.succ_pos n) returned same))] at moved
        cases moved
      · intro k less
        rw [← driven_inl moved]
        exact ongoing (k + 1) (Nat.succ_lt_succ less)
    | inr result =>
      obtain ⟨halt, last⟩ := result
      cases halt with
      | finished | failed _ =>
        simp only [Machine.driven, moved]
        exact ⟨during, shipped⟩
      | paused reason =>
        rw [driven_paused moved]
        refine ih ?_ (during.resumed works moved fun _ _ => rfl) ?_
        · cases Halted.of_step moved with
          | paused working stepped lines =>
            have kept := (m.activity.step_keeps m.core).functions.shipped shipped
            rw [stepped] at kept
            exact kept
        · intro k less
          rw [← driven_paused moved]
          exact ongoing (k + 1) (Nat.succ_lt_succ less)

theorem During.driven {first m : Machine} (shipped : m.core.world.Shipped)
    (during : During Callable.Shipped [] first m) (n : Nat) : During Callable.Shipped [] first (m.driven n) ∧
      (m.driven n).activity.Runs Callable.Shipped (m.driven n).core.world := by
  obtain ⟨within, shipped⟩ := during.driven_within shipped n fun _ _ _ _ => rfl
  exact ⟨within, .of_shipped shipped _⟩

end Machine

end CoopScript
