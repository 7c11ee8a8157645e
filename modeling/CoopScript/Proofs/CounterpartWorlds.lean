import CoopScript.Proofs.Counterparts
import CoopScript.Proofs.FixedParts
import CoopScript.Proofs.StackDiscipline

/-! Register stacks and worlds of counterparts. Stacks are compared slot by slot, worlds by what can
be got at from the functions that are paired: tables and metatables are the same, and iterations
have come as far. What is looked up in the one is a counterpart of what is looked up in the other,
and an iteration that comes into being or moves on does so in both. -/

namespace CoopScript

namespace RegisterStack

/-- As many slots with the same cursor, and counterparts slot by slot. -/
structure Twin (P : Pairing) (s t : RegisterStack) : Prop where
  top : t.top = s.top
  capacity : t.capacity = s.capacity
  get : ∀ i, (s.get i).Twin P (t.get i)

variable {P Q : Pairing} {s t : RegisterStack}

namespace Twin

theorem mono (within : P.Within Q) (twin : s.Twin P t) : s.Twin Q t :=
  ⟨twin.top, twin.capacity, fun i => (twin.get i).mono within⟩

theorem set (twin : s.Twin P t) (i : Nat) {v v' : Value} (value : v.Twin P v') : (s.set i v).Twin P (t.set i v') := by
  refine ⟨twin.top, ?_, ?_⟩
  · rw [(t.set_sameShape i v').capacity, (s.set_sameShape i v).capacity, twin.capacity]
  · intro j
    rw [get_set, get_set, twin.capacity]
    split
    · exact value
    · exact twin.get j

theorem clear (twin : s.Twin P t) (first count : Nat) : (s.clear first count).Twin P (t.clear first count) := by
  induction count generalizing s t first with
  | zero => exact twin
  | succ count ih => exact ih (twin.set first .nil) _

theorem write (twin : s.Twin P t) (first : Nat) {vs vs' : List Value} (values : Values.Twin P vs vs') :
    (s.write first vs).Twin P (t.write first vs') := by
  induction values generalizing s t first with
  | nil => exact twin
  | cons value _ ih => exact ih (twin.set first value) _

theorem move (twin : s.Twin P t) (source target count : Nat) :
    (s.move source target count).Twin P (t.move source target count) := by
  induction count generalizing s t source target with
  | zero => exact twin
  | succ count ih => exact ih ((twin.set source .nil).set target (twin.get source)) _ _

theorem withTop (twin : s.Twin P t) (height : Nat) : Twin P { s with top := height } { t with top := height } :=
  ⟨rfl, twin.capacity, twin.get⟩

theorem slice (twin : s.Twin P t) (first last : Nat) : Values.Twin P (s.slice first last) (t.slice first last) := by
  have size : t.slots.size = s.slots.size := twin.capacity
  refine List.forall₂_iff_get.mpr ⟨by simp [RegisterStack.slice, size], ?_⟩
  intro i here there
  have held := twin.get (first + i)
  simp only [RegisterStack.slice, Array.length_toList, Array.size_extract] at here there
  simp only [RegisterStack.get, Array.getD_eq_getD_getElem?] at held
  rw [Array.getElem?_eq_getElem (by omega), Array.getElem?_eq_getElem (by omega)] at held
  simpa [RegisterStack.slice] using held

theorem emptied (twin : s.Twin P t) : s.emptied.Twin P t.emptied := by
  have cleared := (twin.clear 0 s.top).withTop 0
  rw [RegisterStack.emptied, RegisterStack.emptied, twin.top]
  exact cleared

end Twin

/-- Operations that come to the same on counterparts. -/
def Parallel (P : Pairing) (here there : StackM Unit) : Prop :=
  ∀ s t : RegisterStack, s.Twin P t → (there t).1 = (here s).1 ∧ (here s).2.Twin P (there t).2

namespace Parallel

theorem bind {here there rest rest' : StackM Unit} (first : Parallel P here there) (next : Parallel P rest rest') :
    Parallel P (here >>= fun _ => rest) (there >>= fun _ => rest') := by
  intro s t twin
  obtain ⟨same, after⟩ := first s t twin
  simp only [bind_apply]
  rcases ranHere : here s with ⟨result, s'⟩
  rcases ranThere : there t with ⟨result', t'⟩
  simp only [ranHere, ranThere] at same after
  subst same
  cases result' with
  | error e => exact ⟨rfl, after⟩
  | ok _ => exact next s' t' after

theorem read {next next' : RegisterStack → StackM Unit}
    (rest : ∀ s t : RegisterStack, s.Twin P t → (next' t t).1 = (next s s).1 ∧ (next s s).2.Twin P (next' t t).2) :
    Parallel P (getThe RegisterStack >>= next) (getThe RegisterStack >>= next') :=
  rest

theorem setTop (height : Nat) : Parallel P (setTop height) (RegisterStack.setTop height) := by
  intro s t twin
  rw [setTop_apply, setTop_apply, twin.capacity, twin.top]
  split
  · exact ⟨rfl, twin⟩
  · exact ⟨rfl, (twin.clear _ _).withTop _⟩

theorem push {vs vs' : List Value} (values : Values.Twin P vs vs') : Parallel P (push vs) (RegisterStack.push vs') := by
  intro s t twin
  rw [push_apply, push_apply, twin.capacity, twin.top, values.length_eq]
  split
  · exact ⟨rfl, twin⟩
  · exact ⟨rfl, (twin.write _ values).withTop _⟩

end Parallel

end RegisterStack

namespace Window

open RegisterStack

variable {P : Pairing} {s t : RegisterStack} (w : Window)

theorem top_twin (twin : s.Twin P t) : w.top t = w.top s := by
  simp only [top, twin.top]

theorem arg_twin (twin : s.Twin P t) (i : Nat) : (w.arg s i).Twin P (w.arg t i) := by
  simp only [arg, w.top_twin twin]
  split
  · exact twin.get _
  · exact .nil

theorem values_twin (twin : s.Twin P t) : Values.Twin P (w.values s) (w.values t) := by
  simp only [values, w.top_twin twin]
  exact twin.slice _ _

theorem setTop_parallel (n : Nat) : Parallel P (w.setTop n) (w.setTop n) := .setTop _

theorem pushAll_parallel {vs vs' : List Value} (values : Values.Twin P vs vs') :
    Parallel P (w.pushAll vs) (w.pushAll vs') := by
  apply Parallel.read
  intro s t twin
  rw [twin.top]
  by_cases under : s.top < w.offset
  · simp only [under, if_true]
    exact ((Parallel.setTop w.offset).bind (.push values)) s t twin
  · simp only [under, if_false]
    exact Parallel.push values s t twin

theorem ret_parallel {vs vs' : List Value} (values : Values.Twin P vs vs') : Parallel P (w.ret vs) (w.ret vs') :=
  (w.setTop_parallel 0).bind (.push values)

theorem push_parallel {v v' : Value} (value : v.Twin P v') : Parallel P (w.push v) (w.push v') := by
  apply Parallel.read
  intro s t twin
  have size : w.size t = w.size s := by simp only [Window.size, twin.capacity]
  rw [size, w.top_twin twin]
  by_cases full : w.size s ≤ w.top s
  · simp only [full, if_true]
    exact ⟨rfl, twin⟩
  · simp only [full, if_false]
    have placed : (w.set s (w.top s) v).Twin P (w.set t (w.top t) v') := by
      rw [w.top_twin twin]
      exact twin.set _ value
    exact Parallel.setTop (w.offset + w.top s + 1) _ _ placed

theorem prepend_parallel {v v' : Value} (value : v.Twin P v') : Parallel P (w.prepend v) (w.prepend v') := by
  apply Parallel.read
  intro s t twin
  have held := w.values_twin twin
  exact ((w.setTop_parallel 0).bind ((w.push_parallel value).bind (w.pushAll_parallel held))) s t twin

end Window

/-! Worlds. -/

namespace Pairing

/-- With two more functions paired. -/
def join (P : Pairing) (f g : FunctionId) : Pairing :=
  { P with functions := fun f' g' => P.functions f' g' ∨ f' = f ∧ g' = g }

theorem within_join (P : Pairing) (f g : FunctionId) : P.Within (P.join f g) := ⟨fun _ _ => .inl, rfl, rfl⟩

/-- More functions are paired: some that have come into being since the worlds were these. -/
structure Grows (P : Pairing) (w v : World) (Q : Pairing) : Prop extends P.Within Q where
  later : ∀ f g, Q.functions f g → P.functions f g ∨ w.functions.size ≤ f.index ∧ v.functions.size ≤ g.index

theorem Grows.refl (P : Pairing) (w v : World) : P.Grows w v P := ⟨.refl P, fun _ _ => .inl⟩

theorem grows_join (P : Pairing) (w v : World) : P.Grows w v (P.join ⟨w.functions.size⟩ ⟨v.functions.size⟩) := by
  refine ⟨P.within_join _ _, ?_⟩
  rintro f' g' (paired | ⟨rfl, rfl⟩)
  · exact .inl paired
  · exact .inr ⟨Nat.le_refl _, Nat.le_refl _⟩

/-- A function that the value is stands for itself. -/
def Fixes (P : Pairing) (v : Value) : Prop := ∀ f, v = .function f → P.functions f f

theorem Within.fixes {P Q : Pairing} {v : Value} (within : P.Within Q) (fixes : P.Fixes v) : Q.Fixes v :=
  fun f same => within.functions f f (fixes f same)

theorem Fixes.eq {P : Pairing} {v v' : Value} (fixes : P.Fixes v) (oneToOne : P.OneToOne) (twin : v.Twin P v') :
    v' = v := by
  cases twin with
  | same => rfl
  | function paired => rw [oneToOne.right _ _ _ (fixes _ rfl) paired]

end Pairing

/-- The functions of the library that work on values and nothing else. -/
def Builtin.isSelfContained : Builtin → Bool
  | .pause | .tostring | .typeName | .error | .format | .gsub | .byte | .char | .find | .gmatch | .len | .lower
  | .firstMatch | .rep | .reverse | .sub | .upper => true
  | _ => false

/-- Scripts whose constants stand for themselves, the same function of the library, or iterations
that have come as far. -/
inductive Callable.Twin (P : Pairing) : Callable → Callable → Prop where
  | script {p : Proto} (constants : ∀ v ∈ p.constants, v.Twin P v) : Twin P (.script p) (.script p)
  | builtin {b : Builtin} (selfContained : b.isSelfContained = true) : Twin P (.builtin b) (.builtin b)
  | iteration (cursor : Pattern.Cursor) : Twin P (.matches cursor) (.matches cursor)

theorem Callable.Twin.mono {P Q : Pairing} {c c' : Callable} (within : P.Within Q) (twin : c.Twin P c') : c.Twin Q c' := by
  cases twin with
  | script constants => exact .script fun v member => (constants v member).mono within
  | builtin selfContained => exact .builtin selfContained
  | iteration cursor => exact .iteration cursor

namespace World

/-- What is known to both worlds is the same in both and leads to nothing else, and functions that
are paired do the same. -/
structure Twin (P : Pairing) (w v : World) : Prop where
  oneToOne : P.OneToOne
  tables : ∀ t, P.tables t → v.table t = w.table t
  entries : ∀ t key, P.tables t → ((w.table t).find key).Twin P ((w.table t).find key)
  handlers : ∀ t m, P.tables t → (w.table t).metatable = some m → P.tables m
  objects : ∀ u, P.objects u → (v.userdata u).metatable = (w.userdata u).metatable
  objectHandlers : ∀ u m, P.objects u → (w.userdata u).metatable = some m → P.tables m
  functions : ∀ f g, P.functions f g → (w.callable f).Twin P (v.callable g)
  here : ∀ f g, P.functions f g → f.index < w.functions.size
  there : ∀ f g, P.functions f g → g.index < v.functions.size

variable {P Q : Pairing} {w v : World}

namespace Twin

variable {x x' : Value}

theorem metatable? (twin : w.Twin P v) (value : x.Twin P x') :
    v.metatable? x' = w.metatable? x ∧ ∀ m, w.metatable? x = some m → P.tables m := by
  cases value with
  | function => exact ⟨rfl, by simp [World.metatable?]⟩
  | same shared =>
    cases x with
    | table t =>
      simp only [World.metatable?, twin.tables t shared, true_and]
      exact fun m => twin.handlers t m shared
    | userdata u =>
      simp only [World.metatable?, twin.objects u shared, true_and]
      exact fun m => twin.objectHandlers u m shared
    | _ => exact ⟨rfl, by simp [World.metatable?]⟩

theorem metamethod? (twin : w.Twin P v) (value : x.Twin P x') (event : String) :
    Option.Rel (Value.Twin P) (w.metamethod? x event) (v.metamethod? x' event) := by
  obtain ⟨same, known⟩ := twin.metatable? value
  simp only [World.metamethod?, same]
  cases found : w.metatable? x with
  | none => exact .none
  | some m =>
    have shared := known m found
    simp only [twin.tables m shared]
    split
    · exact .none
    · exact .some (twin.entries m _ shared)

theorem defaultText (twin : w.Twin P v) (value : x.Twin P x) : v.defaultText x = w.defaultText x := by
  have handler := twin.metamethod? value "__name"
  simp only [World.defaultText]
  generalize w.metamethod? x "__name" = here at handler ⊢
  generalize v.metamethod? x "__name" = there at handler ⊢
  cases handler with
  | none => rfl
  | some value => cases value <;> rfl

/-- The text of a value is the same in both worlds, unless it tells the place of a function. -/
theorem defaultText_of_fixes (twin : w.Twin P v) (value : x.Twin P x') (fixes : P.Fixes x) :
    v.defaultText x' = w.defaultText x := by
  obtain rfl := fixes.eq twin.oneToOne value
  exact twin.defaultText value

theorem get (twin : w.Twin P v) {t : TableId} (known : P.tables t) {key key' : Value} (value : key.Twin P key') :
    ((w.table t).get key).Twin P ((v.table t).get key') := by
  simp only [Table.get, twin.tables t known, value.key]
  split
  · exact twin.entries t _ known
  · exact .nil

end Twin

end World

namespace Lookup

inductive Twin (P : Pairing) : Lookup → Lookup → Prop where
  | found {x x' : Value} (value : x.Twin P x') : Twin P (.found x) (.found x')
  | handler {f g : FunctionId} {x x' : Value} (paired : P.functions f g) (owner : x.Twin P x') :
      Twin P (.handler f x) (.handler g x')

end Lookup

/-- What a table has under a key; other objects have nothing. -/
def World.raw (w : World) (key : Value) : Value → Value
  | .table t => (w.table t).get key
  | _ => .nil

theorem World.Twin.lookup {P : Pairing} {w v : World} (twin : w.Twin P v) {key key' : Value} (keys : key.Twin P key')
    (links : Nat) {x x' : Value} (value : x.Twin P x') :
    Likewise (Lookup.Twin P) (w.lookup key links x) (v.lookup key' links x') := by
  induction links generalizing x x' with
  | zero => exact .error _
  | succ links ih =>
    have raw : (w.raw key x).Twin P (v.raw key' x') := by
      cases value with
      | function => exact .nil
      | same shared =>
        cases x with
        | table t => exact twin.get shared keys
        | _ => exact .nil
    have handler := twin.metamethod? value "__index"
    change Likewise _ (if !(w.raw key x).isNil then .ok (Lookup.found (w.raw key x)) else _)
      (if !(v.raw key' x').isNil then .ok (Lookup.found (v.raw key' x')) else _)
    rw [raw.isNil]
    split
    · exact .ok (.found raw)
    · generalize w.metamethod? x "__index" = here at handler ⊢
      generalize v.metamethod? x' "__index" = there at handler ⊢
      cases handler with
      | none =>
        cases value with
        | function => exact .error _
        | same => cases x <;> first | exact .ok (.found .nil) | exact .error _
      | @some object _ handler =>
        cases handler with
        | function paired => exact .ok (.handler paired value)
        | same shared =>
          cases object with
          | function => cases shared
          | _ => exact ih (.same shared)

namespace World.Twin

variable {P : Pairing} {w v : World} {f g : FunctionId}

/-- An iteration and its counterpart move on together. -/
theorem setCallable (twin : w.Twin P v) (paired : P.functions f g) (cursor : Pattern.Cursor) :
    (w.setCallable f (.matches cursor)).Twin P (v.setCallable g (.matches cursor)) := by
  refine
    { oneToOne := twin.oneToOne
      tables := twin.tables
      entries := twin.entries
      handlers := twin.handlers
      objects := twin.objects
      objectHandlers := twin.objectHandlers
      functions := ?_
      here := ?_
      there := ?_ }
  · intro f' g' paired'
    by_cases same : f' = f
    · subst same
      obtain rfl := twin.oneToOne.right _ _ _ paired' paired
      rw [callable_setCallable_self (twin.here _ _ paired), callable_setCallable_self (twin.there _ _ paired)]
      exact .iteration cursor
    · have other : g ≠ g' := by
        rintro rfl
        exact same (twin.oneToOne.left _ _ _ paired' paired)
      have apart : f.index ≠ f'.index := fun equal => same (congrArg FunctionId.mk equal.symm)
      have apart' : g.index ≠ g'.index := fun equal => other (congrArg FunctionId.mk equal)
      rw [w.callable_setCallable_of_ne apart, v.callable_setCallable_of_ne apart']
      exact twin.functions f' g' paired'
  · intro f' g' paired'
    simpa [World.setCallable] using twin.here f' g' paired'
  · intro f' g' paired'
    simpa [World.setCallable] using twin.there f' g' paired'

/-- Iterations that come into being together are counterparts from then on. -/
theorem addFunction (twin : w.Twin P v) (cursor : Pattern.Cursor) :
    (w.addFunction (.matches cursor)).2.Twin (P.join ⟨w.functions.size⟩ ⟨v.functions.size⟩)
      (v.addFunction (.matches cursor)).2 := by
  have within := P.within_join ⟨w.functions.size⟩ ⟨v.functions.size⟩
  have added (u : World) : (u.addFunction (.matches cursor)).2.callable ⟨u.functions.size⟩ = .matches cursor := by
    simp [callable, World.addFunction, Array.getD_eq_getD_getElem?]
  refine
    { oneToOne := ⟨?_, ?_⟩
      tables := twin.tables
      entries := fun t key known => (twin.entries t key known).mono within
      handlers := twin.handlers
      objects := twin.objects
      objectHandlers := twin.objectHandlers
      functions := ?_
      here := ?_
      there := ?_ }
  · rintro f' g' h' (first | ⟨rfl, rfl⟩) (second | ⟨same, rfl⟩)
    · exact twin.oneToOne.right _ _ _ first second
    · subst same
      exact absurd (twin.here _ _ first) (Nat.lt_irrefl _)
    · exact absurd (twin.here _ _ second) (Nat.lt_irrefl _)
    · rfl
  · rintro f' g' h' (first | ⟨rfl, rfl⟩) (second | ⟨rfl, same⟩)
    · exact twin.oneToOne.left _ _ _ first second
    · subst same
      exact absurd (twin.there _ _ first) (Nat.lt_irrefl _)
    · exact absurd (twin.there _ _ second) (Nat.lt_irrefl _)
    · rfl
  · rintro f' g' (paired | ⟨rfl, rfl⟩)
    · rw [w.callable_addFunction_of_lt (twin.here _ _ paired), v.callable_addFunction_of_lt (twin.there _ _ paired)]
      exact (twin.functions f' g' paired).mono within
    · rw [added, added]
      exact .iteration cursor
  · rintro f' g' (paired | ⟨rfl, rfl⟩)
    · simpa [World.addFunction] using Nat.lt_succ_of_lt (twin.here _ _ paired)
    · simp [World.addFunction]
  · rintro f' g' (paired | ⟨rfl, rfl⟩)
    · simpa [World.addFunction] using Nat.lt_succ_of_lt (twin.there _ _ paired)
    · simp [World.addFunction]

end World.Twin

end CoopScript
