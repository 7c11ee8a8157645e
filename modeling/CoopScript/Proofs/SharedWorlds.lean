import CoopScript.Proofs.ExecutorReuse

/-! Worlds that are shared. A run changes no function that is there already but the iterations it
knows, so what others know stays what it was. A world can therefore be divided into what one
executor knows and what the others know, where no iteration is known to both, and it stays divided
whoever runs next. -/

namespace CoopScript

namespace Pairing

variable {P Q R : Pairing} {u u' u'' w w' w'' : World}

/-- The function has a counterpart, or is one. -/
def Knows (P : Pairing) (f : FunctionId) : Prop := ∃ g, P.functions f g ∨ P.functions g f

/-- What comes of a pairing while runs go on in its worlds: functions that come into being are
paired, and on the right no function is changed that has no counterpart. -/
structure Onward (P : Pairing) (u w : World) (Q : Pairing) (u' w' : World) : Prop extends P.Grows u w Q where
  here : u.functions.size ≤ u'.functions.size
  there : w.functions.size ≤ w'.functions.size
  spares : ∀ g, g.index < w.functions.size → (∀ f, ¬P.functions f g) → w'.callable g = w.callable g

theorem Onward.refl (P : Pairing) (u w : World) : P.Onward u w P u w :=
  ⟨.refl P u w, Nat.le_refl _, Nat.le_refl _, fun _ _ _ => rfl⟩

theorem Onward.trans (first : P.Onward u w Q u' w') (rest : Q.Onward u' w' R u'' w'') : P.Onward u w R u'' w'' := by
  refine ⟨⟨first.toWithin.trans rest.toWithin, ?_⟩, first.here.trans rest.here, first.there.trans rest.there, ?_⟩
  · intro f g paired
    obtain old | ⟨left, right⟩ := rest.later f g paired
    · exact first.later f g old
    · exact .inr ⟨first.here.trans left, first.there.trans right⟩
  · intro g inside unknown
    have still : ∀ f, ¬Q.functions f g := by
      intro f paired
      obtain old | ⟨-, new⟩ := first.later f g paired
      · exact unknown f old
      · omega
    exact (rest.spares g (by have := first.there; omega) still).trans (first.spares g inside unknown)

/-- Nothing that is known has just come into being. -/
theorem Onward.knows_old (onward : P.Onward w w Q w' w') {x : FunctionId} (inside : x.index < w.functions.size)
    (knows : Q.Knows x) : P.Knows x := by
  obtain ⟨y, paired | paired⟩ := knows
  · obtain old | ⟨new, -⟩ := onward.later x y paired
    · exact ⟨y, .inl old⟩
    · omega
  · obtain old | ⟨-, new⟩ := onward.later y x paired
    · exact ⟨y, .inr old⟩
    · omega

end Pairing

/-- Who knows a value by itself knows its place. -/
theorem Value.Twin.fixes {P : Pairing} {v : Value} (twin : v.Twin P v) : P.Fixes v := by
  rintro f rfl
  cases twin with
  | same shared => cases shared
  | function paired => exact paired

theorem Activity.Discreet.of_twin {P : Pairing} {c : Core} {a : Activity} (active : a.Twin P a) (core : c.Twin P c) :
    a.Discreet P c := by
  refine ⟨?_, ?_⟩
  · rintro v w rfl
    cases active with
    | dispatch request =>
      cases request with
      | text value => exact value.fixes
  · intro f w _ _
    exact (w.values_twin core.stack).headD.fixes

namespace Machine

variable {P base : Pairing} {m n last : Machine} {halt : Halt}

theorem Twin.onward {Q : Pairing} (twin : m.Twin P n) (grows : P.Grows m.core.world n.core.world Q) {c d : Core}
    (left : m.stepCore = c) (right : n.stepCore = d) : P.Onward m.core.world n.core.world Q c.world d.world := by
  subst left right
  have grown (m : Machine) : m.core.world.functions.size ≤ m.stepCore.world.functions.size := by
    rw [step_functions]
    exact (m.activity.step_precedes m.core).functions
  refine ⟨grows, grown m, grown n, ?_⟩
  intro g inside unknown
  have idle : ∀ w, n.activity ≠ .enter g w := by
    intro w entered
    have active := twin.activity
    rw [entered] at active
    generalize m.activity = a at active
    cases active with
    | enter paired => exact unknown _ paired
  simp only [World.callable, step_functions]
  exact n.activity.step_spares n.core inside idle

/-- What runs of counterparts leave. -/
def Left (P : Pairing) (u w : World) (m n : Machine) : Prop :=
  ∃ Q, P.Onward u w Q m.core.world n.core.world ∧ m.core.Twin Q n.core ∧ Frames.Twin Q m.pending n.pending

/-- Counterparts since the worlds were these, which have a reason to tell no place but one that is the
same for both. -/
def Underway (quiet : Machine → Machine → Prop) (P : Pairing) (u w : World) (m n : Machine) : Prop :=
  quiet m n ∧ ∃ Q, P.Onward u w Q m.core.world n.core.world ∧ m.Twin Q n

section

variable {quiet : Machine → Machine → Prop}
    (discreet : ∀ {m n Q}, quiet m n → P.Within Q → m.Twin Q n → m.activity.Discreet Q m.core)
    (stays : ∀ {m n m' n'}, quiet m n → m.step = .inl m' → n.step = .inl n' → quiet m' n')

include discreet stays

theorem Underway.step {u w : World} (underway : Underway quiet P u w m n) :
    Lockstep (Underway quiet P u w) (fun _ => Left P u w) m.step n.step := by
  obtain ⟨now, Q, onward, twin⟩ := underway
  have together := twin.step (discreet now onward.toWithin twin)
  generalize movedHere : m.step = here at together ⊢
  generalize movedThere : n.step = there at together ⊢
  cases together with
  | moved since =>
    obtain ⟨R, grows, twins⟩ := since
    have next := twin.onward grows (stepCore_of_moved movedHere) (stepCore_of_moved movedThere)
    exact .moved ⟨stays now movedHere movedThere, R, onward.trans next, twins⟩
  | rested resting =>
    obtain ⟨R, grows, cores, saved⟩ := resting
    have next := twin.onward grows (stepCore_of_rested movedHere) (stepCore_of_rested movedThere)
    exact .rested ⟨R, onward.trans next, cores, saved⟩

/-- Counterparts come to rest together, if there is a reason why at each of their steps they tell no
place but one that is the same for both. -/
theorem Twin.run (now : quiet m n) (twin : m.Twin P n) (fuel : Nat) :
    Abreast (fun _ => Left P m.core.world n.core.world) (m.run fuel) (n.run fuel) := by
  have underway : Underway quiet P m.core.world n.core.world m n := ⟨now, P, .refl P _ _, twin⟩
  exact run_abreast (fun _ _ underway => underway.step discreet stays) underway fuel

end

theorem Discreet.run (discreet : m.Discreet base) (within : base.Within P) (twin : m.Twin P n) (fuel : Nat) :
    Abreast (fun _ => Left P m.core.world n.core.world) (m.run fuel) (n.run fuel) := by
  let quiet (m _ : Machine) : Prop := m.Discreet base
  have mild {m n : Machine} {Q : Pairing} (discreet : quiet m n) (further : P.Within Q) (_ : m.Twin Q n) :
      m.activity.Discreet Q m.core := discreet.now.mono (within.trans further)
  have stays {m n m' n' : Machine} (discreet : quiet m n) (moved : m.step = .inl m') (_ : n.step = .inl n') :
      quiet m' n' := discreet.stepped moved
  exact Twin.run mild stays discreet twin fuel

theorem Discreet.paused {reason : SuspendReason} {fuel : Nat} (discreet : m.Discreet P)
    (ran : m.run fuel = some (.paused reason, last)) : last.restarted.Discreet P := by
  induction fuel generalizing m with
  | zero => cases ran
  | succ fuel ih =>
    cases moved : m.step with
    | inl next =>
      rw [run_inl moved] at ran
      exact ih (discreet.stepped moved) ran
    | inr rested =>
      obtain ⟨_, _⟩ := rested
      rw [run_inr moved] at ran
      cases ran
      exact discreet.restarted moved

/-- A run by itself tells what it likes. -/
theorem Twin.run_self {fuel : Nat} (twin : m.Twin P m) (ran : m.run fuel = some (halt, last)) :
    Left P m.core.world m.core.world last last := by
  have mild {m n : Machine} {Q : Pairing} (same : m = n) (_ : P.Within Q) (twin : m.Twin Q n) :
      m.activity.Discreet Q m.core := by
    subst same
    exact .of_twin twin.activity twin.core
  have stays {m n m' n' : Machine} (same : m = n) (here : m.step = .inl m') (there : n.step = .inl n') : m' = n' := by
    subst same
    exact Sum.inl.inj (here.symm.trans there)
  have abreast := Twin.run mild stays rfl twin fuel
  rw [ran] at abreast
  cases abreast with
  | rested left => exact left

end Machine

/-! Executors whose calls are counterparts. -/

namespace Executor

variable {P Q : Pairing} {u w v : World} {d e : Executor}

namespace Twin

/-- A drain leaves an executor that knows what it knew and what has come into being. -/
theorem drain {fuel : Nat} {result : Except Failure Drain} {after : Executor} (twin : e.Twin P e) (world : w.Twin P w)
    (ran : drain fuel w e = some (result, v, after)) :
    w.Precedes v ∧ ∃ Q, P.Onward w w Q v v ∧ v.Twin Q v ∧ after.Twin Q after := by
  rcases of_drain ran with ⟨_, rfl, rfl⟩ | ⟨halt, last, rested, rfl, _, rfl⟩
  · exact ⟨.of_same rfl rfl rfl, P, .refl P v v, world, twin⟩
  · obtain ⟨Q, onward, cores, saved⟩ := (twin.machine world).run_self rested
    exact ⟨Machine.run_precedes rested, Q, onward, cores.world, .settled cores saved halt e e⟩

end Twin

/-- An executor in one world goes on as another does in its own, which does so discreetly. -/
structure Mirrors (base P : Pairing) (u : World) (d e : Executor) : Prop where
  within : base.Within P
  discreet : (d.machine u).Discreet base
  twin : d.Twin P e

/-- What two drains leave that came to the same. -/
structure Settled (base P : Pairing) (u : World) (result : Except Failure Drain) (d e : Executor) : Prop where
  results : result = .ok .finished → Values.Twin P d.results e.results
  reason : result = .ok .paused → ∃ reason, d.lastReason = some reason ∧ e.lastReason = some reason
  mirrors : result = .ok .paused → Mirrors base P u d e

theorem Settled.of_halt {base : Pairing} {m n : Machine} {halt : Halt} (within : base.Within P)
    (discreet : ∀ reason, halt = .paused reason → m.restarted.Discreet base) (cores : m.core.Twin P n.core)
    (saved : Frames.Twin P m.pending n.pending) :
    Settled base P m.core.world (e.settled halt n).1 (d.settled halt m).2 (e.settled halt n).2 := by
  have twin := Twin.settled cores saved halt d e
  cases halt with
  | finished => exact ⟨fun _ => Window.values_twin _ cores.stack, nofun, nofun⟩
  | paused reason => exact ⟨nofun, fun _ => ⟨reason, rfl, rfl⟩, fun _ => ⟨within, discreet reason rfl, twin⟩⟩
  | failed err => exact ⟨nofun, nofun, nofun⟩

/-- The other one can be drained as well, and it comes to the same. -/
theorem Mirrors.drain {base : Pairing} {fuel : Nat} {result : Except Failure Drain} {after : Executor}
    (mirrors : Mirrors base P u d e) (worlds : u.Twin P w) (ran : drain fuel w e = some (result, v, after)) :
    w.Precedes v ∧ ∃ Q u' before, Executor.drain fuel u d = some (result, u', before) ∧ P.Onward u w Q u' v ∧
      u'.Twin Q v ∧ Settled base Q u' result before after := by
  by_cases idle : e.callStack = []
  · rw [drain_of_idle idle] at ran
    cases ran
    have idle' := drain_of_idle (mirrors.twin.idle_iff.mpr idle) fuel u
    exact ⟨.of_same rfl rfl rfl, P, u, d, idle', .refl P u w, worlds, nofun, nofun, nofun⟩
  · have pending : d.callStack ≠ [] := fun none => idle (mirrors.twin.idle_iff.mp none)
    have abreast := mirrors.discreet.run mirrors.within (mirrors.twin.machine worlds) fuel
    generalize ranHere : (d.machine u).run fuel = here at abreast
    generalize ranThere : (e.machine w).run fuel = there at abreast
    cases abreast with
    | unended => simp [Executor.drain, idle, ranThere] at ran
    | @rested halt m n left =>
      obtain ⟨Q, onward, cores, saved⟩ := left
      rw [drain_of_run idle ranThere] at ran
      cases ran
      have same : (d.settled halt m).1 = (e.settled halt n).1 := by cases halt <;> rfl
      refine ⟨Machine.run_precedes ranThere, Q, m.core.world, (d.settled halt m).2, ?_, onward, cores.world, ?_⟩
      · rw [drain_of_run pending ranHere, same]
      · apply Settled.of_halt (mirrors.within.trans onward.toWithin) ?_ cores saved
        rintro reason rfl
        exact mirrors.discreet.paused ranHere

end Executor

/-! Worlds that are divided. -/

namespace World

variable {P K Q : Pairing} {u u' w v : World}

/-- Nothing has changed in these functions and in what all values are told by. -/
structure Lasts (known : FunctionId → Prop) (objects : UserdataId → Prop) (w v : World) : Prop where
  tables : v.tables = w.tables
  grown : w.functions.size ≤ v.functions.size
  functions : ∀ f, known f → v.callable f = w.callable f
  metatables : ∀ x, objects x → (v.userdata x).metatable = (w.userdata x).metatable

theorem Lasts.refl (known : FunctionId → Prop) (objects : UserdataId → Prop) (w : World) : w.Lasts known objects w :=
  ⟨rfl, Nat.le_refl _, fun _ _ => rfl, fun _ _ => rfl⟩

theorem Precedes.lasts {known : FunctionId → Prop} {objects : UserdataId → Prop} (precedes : w.Precedes v)
    (inside : ∀ x, objects x → x.index < w.objects.size) (kept : ∀ f, known f → v.callable f = w.callable f) :
    w.Lasts known objects v :=
  ⟨precedes.tables, precedes.functions, kept, fun x known => precedes.metatable x (inside x known)⟩

/-- Counterparts remain so if neither side changes. -/
theorem Twin.lasts (twin : u.Twin P w) (here : u.Lasts (fun f => ∃ g, P.functions f g) P.objects u')
    (there : w.Lasts (fun g => ∃ f, P.functions f g) P.objects v) : u'.Twin P v := by
  have same (t : TableId) : u'.table t = u.table t := by rw [table, table, here.tables]
  have same' (t : TableId) : v.table t = w.table t := by rw [table, table, there.tables]
  refine
    { oneToOne := twin.oneToOne
      tables := ?tables
      entries := ?entries
      handlers := ?handlers
      objects := ?objects
      objectHandlers := ?objectHandlers
      functions := ?functions
      here := fun f g paired => Nat.lt_of_lt_of_le (twin.here f g paired) here.grown
      there := fun f g paired => Nat.lt_of_lt_of_le (twin.there f g paired) there.grown }
  case tables =>
    intro t known
    rw [same, same', twin.tables t known]
  case entries =>
    intro t key known
    rw [same]
    exact twin.entries t key known
  case handlers =>
    intro t m known
    rw [same]
    exact twin.handlers t m known
  case objects =>
    intro x known
    rw [here.metatables x known, there.metatables x known, twin.objects x known]
  case objectHandlers =>
    intro x m known
    rw [here.metatables x known]
    exact twin.objectHandlers x m known
  case functions =>
    intro f g paired
    rw [here.functions f ⟨g, paired⟩, there.functions g ⟨f, paired⟩]
    exact twin.functions f g paired

theorem Twin.inside (twin : w.Twin K w) {x : FunctionId} (knows : K.Knows x) : x.index < w.functions.size := by
  obtain ⟨y, paired | paired⟩ := knows
  · exact twin.here x y paired
  · exact twin.there y x paired

/-- A world in which one executor knows counterparts of what there is in a world of its own, and the
others know functions too, but no iteration is known to both. -/
structure Divided (P K : Pairing) (u w : World) : Prop where
  own : u.Twin P w
  others : w.Twin K w
  objects : ∀ x, P.objects x ∨ K.objects x → x.index < w.objects.size
  apart : ∀ f x, P.functions f x → K.Knows x → ∀ cursor, w.callable x ≠ .matches cursor

namespace Divided

/-- The others have run. -/
theorem others_ran (divided : Divided P K u w) (precedes : w.Precedes v) (onward : K.Onward w w Q v v)
    (others : v.Twin Q v) : Divided P Q u v := by
  have kept (x : FunctionId) (known : ∃ f, P.functions f x) : v.callable x = w.callable x := by
    obtain ⟨f, paired⟩ := known
    have inside := divided.own.there f x paired
    by_cases knows : K.Knows x
    · exact precedes.kept x inside (divided.apart f x paired knows)
    · exact onward.spares x inside fun g paired => knows ⟨g, .inr paired⟩
  refine ⟨?own, others, ?objects, ?apart⟩
  case own =>
    have objects (x : UserdataId) (known : P.objects x) := divided.objects x (.inl known)
    exact divided.own.lasts (.refl _ _ u) (precedes.lasts objects kept)
  case objects =>
    intro x known
    rw [onward.objects] at known
    exact Nat.lt_of_lt_of_le (divided.objects x known) precedes.objects
  case apart =>
    intro f x paired knows
    rw [kept x ⟨f, paired⟩]
    exact divided.apart f x paired (onward.knows_old (divided.own.there f x paired) knows)

/-- The one executor has run, and another one in the world of its own. -/
theorem own_ran (divided : Divided P K u w) (precedes : w.Precedes v) (onward : P.Onward u w Q u' v)
    (own : u'.Twin Q v) : Divided Q K u' v := by
  have kept (x : FunctionId) (knows : K.Knows x) : v.callable x = w.callable x := by
    have inside := divided.others.inside knows
    by_cases known : ∃ f, P.functions f x
    · obtain ⟨f, paired⟩ := known
      exact precedes.kept x inside (divided.apart f x paired knows)
    · exact onward.spares x inside (not_exists.mp known)
  have objects (x : UserdataId) (known : K.objects x) := divided.objects x (.inr known)
  refine ⟨own, ?others, ?objects, ?apart⟩
  case others =>
    refine divided.others.lasts (precedes.lasts objects ?_) (precedes.lasts objects ?_)
    · rintro f ⟨g, paired⟩
      exact kept f ⟨g, .inl paired⟩
    · rintro g ⟨f, paired⟩
      exact kept g ⟨f, .inr paired⟩
  case objects =>
    intro x known
    rw [onward.objects] at known
    exact Nat.lt_of_lt_of_le (divided.objects x known) precedes.objects
  case apart =>
    intro f x paired knows
    rw [kept x knows]
    obtain old | ⟨-, new⟩ := onward.later f x paired
    · exact divided.apart f x old knows
    · have := divided.others.inside knows
      omega

end Divided

end World

end CoopScript
