import CoopScript.Library.Builtins
import CoopScript.Script.Operator
import Mathlib

/-! Values with counterparts in another world. There an object may stand in another place, so a
pairing tells which functions stand for one another, and which tables and userdata both worlds
share. Operators and the library never look into a function: given counterparts they fail alike
or come to counterparts, and so do the dialogues of substitution and of formatting. -/

namespace CoopScript

/-- Both fail in the same way, or both give results that are related. -/
inductive Likewise {ε α β : Type} (rel : α → β → Prop) : Except ε α → Except ε β → Prop where
  | ok {a : α} {b : β} (related : rel a b) : Likewise rel (.ok a) (.ok b)
  | error (e : ε) : Likewise rel (.error e) (.error e)

namespace Likewise

variable {ε α β γ δ : Type} {rel : α → β → Prop} {after : γ → δ → Prop} {here : Except ε α} {there : Except ε β}

theorem map {f : α → γ} {g : β → δ} (likewise : Likewise rel here there) (rest : ∀ a b, rel a b → after (f a) (g b)) :
    Likewise after (here.map f) (there.map g) := by
  cases likewise with
  | ok related => exact .ok (rest _ _ related)
  | error e => exact .error e

theorem same (here : Except ε α) : Likewise Eq here here := by
  cases here with
  | ok a => exact .ok rfl
  | error e => exact .error e

theorem bind {next : α → Except ε γ} {next' : β → Except ε δ} (likewise : Likewise rel here there)
    (rest : ∀ a b, rel a b → Likewise after (next a) (next' b)) : Likewise after (here >>= next) (there >>= next') := by
  cases likewise with
  | ok related => exact rest _ _ related
  | error e => exact .error e

end Likewise

/-- Which functions of two worlds stand for one another, and which tables and userdata are known
to both. -/
structure Pairing where
  functions : FunctionId → FunctionId → Prop
  tables : TableId → Prop
  objects : UserdataId → Prop

namespace Pairing

/-- More functions are paired. -/
structure Within (P Q : Pairing) : Prop where
  functions : ∀ f g, P.functions f g → Q.functions f g
  tables : Q.tables = P.tables
  objects : Q.objects = P.objects

theorem Within.refl (P : Pairing) : P.Within P := ⟨fun _ _ => id, rfl, rfl⟩

theorem Within.trans {P Q R : Pairing} (first : P.Within Q) (rest : Q.Within R) : P.Within R :=
  ⟨fun f g paired => rest.functions f g (first.functions f g paired), rest.tables.trans first.tables,
    rest.objects.trans first.objects⟩

/-- The value is no function, and if it is an object, both worlds know it. -/
def Shares (P : Pairing) : Value → Prop
  | .table t => P.tables t
  | .userdata u => P.objects u
  | .function _ => False
  | _ => True

/-- Each function has at most one counterpart, on either side. -/
structure OneToOne (P : Pairing) : Prop where
  right : ∀ f g h, P.functions f g → P.functions f h → g = h
  left : ∀ f g h, P.functions f h → P.functions g h → f = g

end Pairing

/-- The values are counterparts: the same, or functions that are paired. -/
inductive Value.Twin (P : Pairing) : Value → Value → Prop where
  | same {v : Value} (shared : P.Shares v) : Twin P v v
  | function {f g : FunctionId} (paired : P.functions f g) : Twin P (.function f) (.function g)

/-- The values are counterparts one by one. -/
abbrev Values.Twin (P : Pairing) : List Value → List Value → Prop := List.Forall₂ (Value.Twin P)

namespace Value.Twin

variable {P Q : Pairing} {v v' : Value}

theorem nil : Value.nil.Twin P .nil := .same trivial

theorem str (s : String) : (Value.str s).Twin P (.str s) := .same trivial

theorem mono (within : P.Within Q) (twin : v.Twin P v') : v.Twin Q v' := by
  cases twin with
  | function paired => exact .function (within.functions _ _ paired)
  | same shared =>
    refine .same ?_
    cases v with
    | table t =>
      change Q.tables t
      rw [within.tables]
      exact shared
    | userdata u =>
      change Q.objects u
      rw [within.objects]
      exact shared
    | _ => exact shared

theorem kind (twin : v.Twin P v') : v'.kind = v.kind := by
  cases twin <;> rfl

theorem isNil (twin : v.Twin P v') : v'.isNil = v.isNil := by
  cases twin <;> rfl

theorem isTruthy (twin : v.Twin P v') : v'.isTruthy = v.isTruthy := by
  cases twin <;> rfl

theorem asText? (twin : v.Twin P v') : v'.asText? = v.asText? := by
  cases twin <;> rfl

theorem asInt? (twin : v.Twin P v') : v'.asInt? = v.asInt? := by
  cases twin <;> rfl

theorem asFloat? (twin : v.Twin P v') : v'.asFloat? = v.asFloat? := by
  cases twin <;> rfl

theorem key (twin : v.Twin P v') : Key.ofValue v' = Key.ofValue v := by
  cases twin <;> rfl

theorem literal? (twin : v.Twin P v') : Formatting.literal? v' = Formatting.literal? v := by
  cases twin <;> rfl

theorem same_iff (oneToOne : P.OneToOne) {u u' : Value} (twin : u.Twin P u') (twin' : v.Twin P v') :
    u'.same v' = u.same v := by
  cases twin with
  | same shared =>
    cases twin' with
    | same => rfl
    | function =>
      cases u with
      | function => cases shared
      | _ => rfl
  | @function f g paired =>
    cases twin' with
    | same shared =>
      cases v with
      | function => cases shared
      | _ => rfl
    | @function f' g' paired' =>
      have iff : g = g' ↔ f = f' := by
        constructor
        · rintro rfl
          exact oneToOne.left _ _ _ paired paired'
        · rintro rfl
          exact oneToOne.right _ _ _ paired paired'
      simp only [Value.same, beq_eq_decide, iff]

end Value.Twin

/-! Operators. -/

section Operators

variable {P : Pairing} {u u' v v' : Value}

theorem arith_twin (op : ArithOp) (twin : u.Twin P u') (twin' : v.Twin P v') : arith op u' v' = arith op u v := by
  cases twin with
  | same => cases twin' with
    | same => rfl
    | function => cases u <;> rfl
  | function => cases twin' <;> rfl

theorem order_twin (twin : u.Twin P u') (twin' : v.Twin P v') : order u' v' = order u v := by
  cases twin with
  | same => cases twin' with
    | same => rfl
    | function => cases u <;> rfl
  | function => cases twin' <;> rfl

theorem compareValues_twin (oneToOne : P.OneToOne) (op : CompareOp) (twin : u.Twin P u') (twin' : v.Twin P v') :
    compareValues op u' v' = compareValues op u v := by
  cases op with
  | eq => simp only [compareValues, Value.Twin.same_iff oneToOne twin twin']
  | lt | le => simp only [compareValues, order_twin twin twin']

theorem concatValues_twin (twin : u.Twin P u') (twin' : v.Twin P v') : concatValues u' v' = concatValues u v := by
  simp only [concatValues, twin.asText?, twin'.asText?, twin.kind, twin'.kind]

end Operators

namespace Values.Twin

variable {P Q : Pairing} {vs vs' : List Value}

theorem mono (within : P.Within Q) (twins : Values.Twin P vs vs') : Values.Twin Q vs vs' :=
  List.Forall₂.imp (fun _ _ twin => twin.mono within) twins

theorem of_shared (shared : ∀ v ∈ vs, P.Shares v) : Values.Twin P vs vs :=
  List.forall₂_same.mpr fun v member => .same (shared v member)

theorem getElem? (twins : Values.Twin P vs vs') (i : Nat) : Option.Rel (Value.Twin P) vs[i]? vs'[i]? := by
  induction twins generalizing i with
  | nil => exact .none
  | cons twin _ ih =>
    cases i with
    | zero => exact .some twin
    | succ i => exact ih i

theorem getD (twins : Values.Twin P vs vs') (i : Nat) : (vs[i]?.getD .nil).Twin P (vs'[i]?.getD .nil) := by
  have twin := twins.getElem? i
  generalize vs[i]? = here at twin ⊢
  generalize vs'[i]? = there at twin ⊢
  cases twin with
  | none => exact .nil
  | some twin => exact twin

theorem kind (twins : Values.Twin P vs vs') (i : Nat) : vs'[i]?.map Value.kind = vs[i]?.map Value.kind := by
  have twin := twins.getElem? i
  generalize vs[i]? = here at twin ⊢
  generalize vs'[i]? = there at twin ⊢
  cases twin with
  | none => rfl
  | some twin => simp only [Option.map_some, twin.kind]

theorem headD (twins : Values.Twin P vs vs') : (vs.headD .nil).Twin P (vs'.headD .nil) := by
  cases twins with
  | nil => exact Value.Twin.nil
  | cons twin _ => exact twin

end Values.Twin

namespace Arguments

/-- Counterparts among the arguments, as far as they have been read. -/
structure Twin (P : Pairing) (a b : Arguments) : Prop where
  function : b.function = a.function
  position : b.position = a.position
  values : Values.Twin P a.values b.values

namespace Twin

variable {P Q : Pairing} {a b : Arguments}

theorem mono (within : P.Within Q) (twin : a.Twin P b) : a.Twin Q b :=
  ⟨twin.function, twin.position, twin.values.mono within⟩

theorem hasNext (twin : a.Twin P b) : b.hasNext = a.hasNext := by
  simp only [Arguments.hasNext, twin.position, twin.values.length_eq]

theorem nextAbsent (twin : a.Twin P b) : b.nextAbsent = a.nextAbsent := by
  simp only [Arguments.nextAbsent, twin.position]
  exact (twin.values.getD a.position).isNil

theorem bad (twin : a.Twin P b) (index : Nat) (fault : ArgumentFault) : b.bad index fault = a.bad index fault := by
  simp only [Arguments.bad, twin.function]

theorem badLast (twin : a.Twin P b) (fault : ArgumentFault) : b.badLast fault = a.badLast fault := by
  simp only [Arguments.badLast, twin.position, twin.bad]

theorem unexpected (twin : a.Twin P b) (index : Nat) (what : String) :
    b.unexpected index what = a.unexpected index what := by
  simp only [Arguments.unexpected, twin.bad, twin.values.kind]

end Twin

/-- Readers that read counterparts from counterparts. -/
def Parallel {α β : Type} (P : Pairing) (rel : α → β → Prop) (here : ArgumentsM α) (there : ArgumentsM β) : Prop :=
  ∀ a b, a.Twin P b → Likewise (fun x y => rel x.1 y.1 ∧ x.2.Twin P y.2) (here a) (there b)

namespace Parallel

variable {α β γ δ : Type} {P : Pairing} {rel : α → β → Prop} {after : γ → δ → Prop}

theorem pure {x : α} {y : β} (related : rel x y) : Parallel P rel (Pure.pure x) (Pure.pure y) :=
  fun _ _ twin => .ok ⟨related, twin⟩

theorem throw (e : ScriptError) : Parallel P rel (throw e) (throw e) := fun _ _ _ => .error e

theorem lift (op : Except ScriptError α) : Parallel P Eq (liftM op : ArgumentsM α) (liftM op) := by
  intro a b twin
  cases op with
  | ok x => exact .ok ⟨rfl, twin⟩
  | error e => exact .error e

theorem get : Parallel P (Twin P) MonadState.get MonadState.get := fun _ _ twin => .ok ⟨twin, twin⟩

theorem bind {here : ArgumentsM α} {there : ArgumentsM β} {next : α → ArgumentsM γ} {next' : β → ArgumentsM δ}
    (first : Parallel P rel here there) (rest : ∀ x y, rel x y → Parallel P after (next x) (next' y)) :
    Parallel P after (here >>= next) (there >>= next') := by
  intro a b twin
  exact (first a b twin).bind fun x y related => rest x.1 y.1 related.1 x.2 y.2 related.2

/-- What is read from both sides alike can be read once. -/
theorem bind_same {here : ArgumentsM α} {next : α → ArgumentsM γ} {next' : α → ArgumentsM δ}
    (first : Parallel P Eq here here) (rest : ∀ x, Parallel P after (next x) (next' x)) :
    Parallel P after (here >>= next) (here >>= next') := by
  apply first.bind
  rintro x _ rfl
  exact rest x

theorem nextOrNil : Parallel P (Value.Twin P) nextOrNil nextOrNil := by
  intro a b twin
  refine .ok ⟨?_, twin.function, ?_, twin.values⟩
  · change (a.values[a.position]?.getD .nil).Twin P (b.values[b.position]?.getD .nil)
    rw [twin.position]
    exact twin.values.getD a.position
  · exact congrArg (· + 1) twin.position

theorem nextAny : Parallel P (Value.Twin P) nextAny nextAny := by
  intro a b twin
  have value := twin.values.getElem? a.position
  rw [← twin.position] at value
  generalize here : a.values[b.position]? = v at value
  generalize there : b.values[b.position]? = v' at value
  rw [twin.position] at here
  cases value with
  | none =>
    rw [Arguments.nextAny_of_none here, Arguments.nextAny_of_none there, twin.position, twin.bad]
    exact .error _
  | some value =>
    rw [Arguments.nextAny_of_some here, Arguments.nextAny_of_some there]
    exact .ok ⟨value, twin.function, congrArg (· + 1) twin.position, twin.values⟩

theorem nextText : Parallel P Eq nextText nextText := by
  refine nextOrNil.bind fun v v' value => get.bind fun a b twin => ?_
  simp only [value.asText?, twin.position, twin.unexpected]
  split
  · exact .pure rfl
  · exact .throw _

theorem nextInt : Parallel P Eq nextInt nextInt := by
  refine nextOrNil.bind fun v v' value => get.bind fun a b twin => ?_
  simp only [value.asInt?, value.asFloat?, twin.position, twin.bad, twin.unexpected]
  split
  · exact .pure rfl
  · split <;> exact .throw _

theorem nextFloat : Parallel P Eq nextFloat nextFloat := by
  refine nextOrNil.bind fun v v' value => get.bind fun a b twin => ?_
  simp only [value.asFloat?, twin.position, twin.unexpected]
  split
  · exact .pure rfl
  · exact .throw _

theorem optInt (default : Int64) : Parallel P Eq (optInt default) (optInt default) := by
  refine get.bind fun a b twin => ?_
  simp only [twin.nextAbsent]
  split
  · exact nextOrNil.bind fun _ _ _ => .pure rfl
  · exact nextInt

theorem optText : Parallel P Eq optText optText := by
  refine get.bind fun a b twin => ?_
  simp only [twin.nextAbsent]
  split
  · exact nextOrNil.bind fun _ _ _ => .pure rfl
  · apply nextText.bind_same
    intro s
    exact .pure rfl

theorem badLast (fault : ArgumentFault) :
    Parallel P rel (MonadState.get >>= fun a : Arguments => MonadExcept.throw (a.badLast fault))
      (MonadState.get >>= fun a : Arguments => MonadExcept.throw (a.badLast fault)) := by
  refine get.bind fun a b twin => ?_
  rw [twin.badLast]
  exact .throw _

theorem reading {here : ArgumentsM α} {there : ArgumentsM β} (parallel : Parallel P rel here there)
    (function : String) {args args' : List Value} (twins : Values.Twin P args args') :
    Likewise rel (Arguments.reading function args here) (Arguments.reading function args' there) :=
  (parallel { function, values := args } { function, values := args' } ⟨rfl, rfl, twins⟩).bind
    fun _ _ related => .ok related.1

end Parallel

end Arguments

end CoopScript
