import CoopScript.Proofs.ExactValues
import CoopScript.Table

/-! Keys of tables. Two values have the same key if they are equal in scripts, though numbers are compared in one way
and turned into keys in another: a float becomes a key by its word, unless it equals an integer. So a table holds
what has last been set under an equal key, and one entry for all keys that are equal. -/

namespace CoopScript

namespace Binary64

variable {x y : Binary64}

/-- The key of a number that is no NaN. -/
def key (x : Binary64) : Key :=
  match x.toInt64? with
  | some i => .int i
  | none => .float x

theorem key_eq_int_iff {i : Int64} : x.key = .int i ↔ x.toInt64? = some i := by
  rw [key]
  cases x.toInt64? <;> simp

theorem key_ne_bool (b : Bool) : x.key ≠ .bool b := by
  rw [key]
  cases x.toInt64? <;> simp

theorem key_ne_str (s : String) : x.key ≠ .str s := by
  rw [key]
  cases x.toInt64? <;> simp

/-- Words other than those of zero have ranks of their own, and zero is an integer. -/
theorem key_eq_iff : x.key = y.key ↔ x.rank = y.rank := by
  constructor
  · intro same
    rw [key, key] at same
    rcases whole : x.toInt64? with _ | i <;> rcases whole' : y.toInt64? with _ | j <;> rw [whole, whole'] at same <;>
      cases same
    · rfl
    · rw [rank_eq_iff, (toInt64?_eq_some_iff.mp whole).2, (toInt64?_eq_some_iff.mp whole').2]
  · intro same
    rw [key, key, ← toInt64?_congr same]
    cases whole : x.toInt64? with
    | some i => rfl
    | none =>
      have nonzero : x.rank ≠ 0 := by
        intro zero
        cases whole.symm.trans (toInt64?_zero zero)
      rw [eq_of_rank same nonzero]

end Binary64

namespace Key

variable {v w : Value} {k l : Key}

/-- The values that have a key. -/
inductive Of : Value → Key → Prop where
  | bool (b : Bool) : Of (.bool b) (.bool b)
  | int (i : Int64) : Of (.int i) (.int i)
  | float {x : Binary64} (number : x.isNaN = false) : Of (.float x) x.key
  | str (s : String) : Of (.str s) (.str s)

theorem ofValue_float {x : Binary64} (number : x.isNaN = false) : ofValue (.float x) = .ok x.key := by
  rw [ofValue, number, Binary64.key]
  cases x.toInt64? <;> rfl

theorem of_iff : Of v k ↔ ofValue v = .ok k := by
  constructor
  · intro keyed
    cases keyed with
    | bool | int | str => rfl
    | float number => exact ofValue_float number
  · intro keyed
    cases v with
    | nil | table _ | function _ | userdata _ => cases keyed
    | bool b =>
      cases keyed
      exact .bool b
    | int i =>
      cases keyed
      exact .int i
    | str s =>
      cases keyed
      exact .str s
    | float x =>
      cases number : x.isNaN with
      | true =>
        rw [ofValue, number] at keyed
        cases keyed
      | false =>
        rw [ofValue_float number] at keyed
        cases keyed
        exact .float number

/-- A value that has the key. -/
def toValue : Key → Value
  | .bool b => .bool b
  | .int i => .int i
  | .float x => .float x
  | .str s => .str s

theorem Of.toValue (keyed : Of v k) : Of k.toValue k := by
  cases keyed with
  | bool b => exact .bool b
  | int i => exact .int i
  | str s => exact .str s
  | @float x number =>
    cases whole : x.toInt64? with
    | some i =>
      rw [Binary64.key_eq_int_iff.mpr whole]
      exact .int i
    | none =>
      have own : x.key = .float x := by rw [Binary64.key, whole]
      have keyed := Of.float number
      rw [own] at keyed ⊢
      exact keyed

/-- Values have the same key if they are equal in scripts. -/
theorem Of.eq_iff (first : Of v k) (second : Of w l) : k = l ↔ v.same w = true := by
  cases first <;> cases second
  case int.float => rw [eq_comm, Binary64.key_eq_int_iff, Value.same, beq_iff_eq]
  case float.int => rw [Binary64.key_eq_int_iff, Value.same, beq_iff_eq]
  case float.float number _ number' =>
    rw [Binary64.key_eq_iff, Value.same, Binary64.same_iff, and_iff_right number, and_iff_right number']
  case bool.float => simp [Value.same, Ne.symm (Binary64.key_ne_bool _)]
  case str.float => simp [Value.same, Ne.symm (Binary64.key_ne_str _)]
  all_goals simp [Value.same, Binary64.key_ne_bool, Binary64.key_ne_str]

/-- What equals a value with a key has a key. -/
theorem Of.of_same (keyed : Of v k) (same : v.same w = true) : ∃ l, Of w l := by
  cases keyed with
  | bool =>
    cases w with
    | bool b => exact ⟨_, .bool b⟩
    | _ => cases same
  | int =>
    cases w with
    | int i => exact ⟨_, .int i⟩
    | float x =>
      have finite := Binary64.isFinite_of_toInt64? (beq_iff_eq.mp same)
      exact ⟨_, .float (Binary64.isNaN_of_isFinite finite)⟩
    | _ => cases same
  | float =>
    cases w with
    | int i => exact ⟨_, .int i⟩
    | float x => exact ⟨_, .float (Binary64.same_iff.mp same).2.1⟩
    | _ => cases same
  | str =>
    cases w with
    | str s => exact ⟨_, .str s⟩
    | _ => cases same

end Key

namespace Table

variable {t : Table} {k l : Key} {key value v : Value} {op : Value × Value} {ops : List (Value × Value)}

theorem lookup_filter (entries : List (Key × Value)) (k l : Key) :
    (entries.filter fun e => e.1 != k).lookup l = if l = k then none else entries.lookup l := by
  induction entries with
  | nil => exact (ite_self none).symm
  | cons e entries ih =>
    by_cases removed : e.1 = k
    · rw [List.filter_cons_of_neg (by simp [removed]), ih, List.lookup_cons, removed]
      by_cases here : l = k
      · rw [if_pos here, if_pos here]
      · rw [if_neg here, if_neg here, beq_false_of_ne here]
    · rw [List.filter_cons_of_pos (by simp [removed]), List.lookup_cons, List.lookup_cons, ih]
      by_cases here : l = e.1
      · simp [here, removed]
      · rw [beq_false_of_ne here]

theorem find_put : (t.put k value).find l = if l = k then value else t.find l := by
  rw [put, find, find]
  dsimp only
  cases removed : value.isNil with
  | true =>
    have nil : value = .nil := by
      cases value <;> first | rfl | cases removed
    rw [if_pos rfl, lookup_filter, nil]
    split <;> rfl
  | false =>
    rw [if_neg Bool.false_ne_true, List.lookup_cons, lookup_filter]
    by_cases here : l = k
    · simp [here]
    · rw [if_neg here, if_neg here, beq_false_of_ne here]

/-- The table after a set, which changes nothing if it fails. -/
def after (t : Table) (op : Value × Value) : Table :=
  match t.set op.1 op.2 with
  | .ok next => next
  | .error _ => t

/-- An empty table after sets, one after another. -/
def assigned (metatable : Option TableId) (ops : List (Value × Value)) : Table := ops.foldl after ⟨[], metatable⟩

/-- A set that does not fail, of a key that equals this one. -/
def Sets (key : Value) (op : Value × Value) : Bool := (Key.ofValue op.1).isOk && op.1.same key

theorem after_of (keyed : Key.Of key k) : t.after (key, value) = t.put k value := by
  rw [after, set, Key.of_iff.mp keyed]
  rfl

theorem after_of_error {e : ScriptError} (failed : t.set key value = .error e) : t.after (key, value) = t := by
  rw [after, failed]

theorem set_error {e : ScriptError} (failed : Key.ofValue key = .error e) : t.set key value = .error e := by
  rw [set, failed]
  rfl

theorem set_ok_iff : (∃ next, t.set key value = .ok next) ↔ ∃ k, Key.Of key k := by
  constructor
  · rintro ⟨next, done⟩
    cases keyed : Key.ofValue key with
    | error e => cases (set_error keyed).symm.trans done
    | ok k => exact ⟨k, Key.of_iff.mpr keyed⟩
  · rintro ⟨k, keyed⟩
    refine ⟨t.put k value, ?_⟩
    rw [set, Key.of_iff.mp keyed]
    rfl

/-- There is nothing in an empty table. -/
theorem get_nil (metatable : Option TableId) (key : Value) : Table.get ⟨[], metatable⟩ key = .nil := by
  rw [get]
  split <;> rfl

theorem get_of (keyed : Key.Of key k) : t.get key = t.find k := by
  rw [get, Key.of_iff.mp keyed]

theorem get_after (t : Table) (op : Value × Value) (key : Value) :
    (t.after op).get key = if Sets key op then op.2 else t.get key := by
  obtain ⟨setKey, value⟩ := op
  cases keyed : Key.ofValue setKey with
  | error e =>
    have fails : Sets key (setKey, value) = false := by
      rw [Sets, keyed]
      rfl
    rw [after_of_error (set_error keyed), fails, if_neg Bool.false_ne_true]
  | ok k =>
    have keyed := Key.of_iff.mpr keyed
    have sets : Sets key (setKey, value) = setKey.same key := by
      rw [Sets, Key.of_iff.mp keyed]
      rfl
    rw [after_of keyed, sets]
    cases found : Key.ofValue key with
    | error e =>
      have different : setKey.same key = false := by
        by_contra same
        obtain ⟨l, keyed⟩ := keyed.of_same (eq_true_of_ne_false same)
        cases found.symm.trans (Key.of_iff.mp keyed)
      rw [different, if_neg Bool.false_ne_true, get, get, found]
    | ok l =>
      have other := Key.of_iff.mpr found
      rw [get_of other, get_of other, find_put]
      simp only [eq_comm, keyed.eq_iff other]

/-- What has last been set under a key that equals this one, if anything has. -/
def lastSet? (ops : List (Value × Value)) (key : Value) : Option Value :=
  (ops.reverse.find? (Sets key)).map Prod.snd

theorem get_foldl_after (t : Table) (ops : List (Value × Value)) (key : Value) :
    (ops.foldl after t).get key = (lastSet? ops key).getD (t.get key) := by
  induction ops using List.reverseRecOn with
  | nil => rfl
  | append_singleton ops op ih =>
    rw [List.foldl_append, List.foldl_cons, List.foldl_nil, get_after, lastSet?, List.reverse_append,
      List.reverse_singleton, List.singleton_append, List.find?_cons]
    cases Sets key op with
    | true => rfl
    | false => exact ih

/-- Every key has one entry, and no entry holds nil. -/
structure Proper (t : Table) : Prop where
  distinct : (t.entries.map Prod.fst).Nodup
  keyed : ∀ e ∈ t.entries, Key.Of e.1.toValue e.1
  held : ∀ e ∈ t.entries, e.2 ≠ .nil

theorem Proper.put (proper : t.Proper) (keyed : Key.Of key k) (value : Value) : (t.put k value).Proper := by
  have kept : t.entries.filter (fun e => e.1 != k) ⊆ t.entries := List.filter_subset_self _
  have others : Proper { t with entries := t.entries.filter fun e => e.1 != k } :=
    ⟨proper.distinct.sublist (List.filter_sublist.map _), fun e member => proper.keyed e (kept member),
      fun e member => proper.held e (kept member)⟩
  rw [Table.put]
  dsimp only
  split
  · exact others
  · next some =>
    have fresh : k ∉ (t.entries.filter fun e => e.1 != k).map Prod.fst := by
      intro member
      obtain ⟨e, member, rfl⟩ := List.mem_map.mp member
      simpa using (List.mem_filter.mp member).2
    refine ⟨List.nodup_cons.mpr ⟨fresh, others.distinct⟩, ?_, ?_⟩
    · exact List.forall_mem_cons.mpr ⟨keyed.toValue, others.keyed⟩
    · refine List.forall_mem_cons.mpr ⟨?_, others.held⟩
      rintro rfl
      exact some rfl

theorem Proper.after (proper : t.Proper) (op : Value × Value) : (t.after op).Proper := by
  obtain ⟨key, value⟩ := op
  cases keyed : Key.ofValue key with
  | error e =>
    rw [after_of_error (set_error keyed)]
    exact proper
  | ok k =>
    have keyed := Key.of_iff.mpr keyed
    rw [after_of keyed]
    exact proper.put keyed value

theorem Proper.foldl_after (proper : t.Proper) (ops : List (Value × Value)) : (ops.foldl Table.after t).Proper := by
  induction ops generalizing t with
  | nil => exact proper
  | cons op ops ih => exact ih (proper.after op)

theorem of_get (held : t.get key ≠ .nil) : ∃ k, Key.Of key k ∧ t.find k ≠ .nil := by
  cases keyed : Key.ofValue key with
  | error e => exact absurd (by rw [get, keyed]) held
  | ok k =>
    have keyed := Key.of_iff.mpr keyed
    rw [get_of keyed] at held
    exact ⟨k, keyed, held⟩

/-- The values under which there is one, where those that are equal in scripts are the same. -/
def holding (t : Table) : Setoid {key : Value // t.get key ≠ .nil} where
  r a b := a.1.same b.1 = true
  iseqv := by
    constructor
    · intro a
      obtain ⟨k, keyed, -⟩ := of_get a.2
      exact (keyed.eq_iff keyed).mp rfl
    · intro a b same
      obtain ⟨k, keyed, -⟩ := of_get a.2
      obtain ⟨l, other, -⟩ := of_get b.2
      exact (other.eq_iff keyed).mp ((keyed.eq_iff other).mpr same).symm
    · intro a b c first second
      obtain ⟨k, keyed, -⟩ := of_get a.2
      obtain ⟨l, other, -⟩ := of_get b.2
      obtain ⟨m, last, -⟩ := of_get c.2
      exact (keyed.eq_iff last).mp (((keyed.eq_iff other).mpr first).trans ((other.eq_iff last).mpr second))

theorem Proper.find_ne_nil_iff (proper : t.Proper) : t.find k ≠ .nil ↔ ∃ e ∈ t.entries, e.1 = k := by
  have listed : (t.entries.lookup k).isSome ↔ ∃ e ∈ t.entries, e.1 = k := by
    rw [List.lookup_isSome_iff]
    simp only [beq_iff_eq, @eq_comm _ k]
  rw [← listed, find]
  cases found : t.entries.lookup k with
  | none => simp
  | some v =>
    obtain ⟨before, later, parts, -⟩ := List.lookup_eq_some_iff.mp found
    have held := proper.held (k, v) (parts ▸ List.mem_append_right _ List.mem_cons_self)
    simpa using held

/-- There are as many entries as there are different values to find something under. -/
theorem Proper.card_holding (proper : t.Proper) : Nat.card (Quotient t.holding) = t.size := by
  have holds (i : Fin t.entries.length) : t.get t.entries[i].1.toValue ≠ .nil := by
    have member : t.entries[i] ∈ t.entries := List.getElem_mem i.2
    rw [get_of (proper.keyed _ member)]
    exact proper.find_ne_nil_iff.mpr ⟨_, member, rfl⟩
  have keyed (i : Fin t.entries.length) : Key.Of t.entries[i].1.toValue t.entries[i].1 :=
    proper.keyed _ (List.getElem_mem i.2)
  let represented (i : Fin t.entries.length) : Quotient t.holding := Quotient.mk _ ⟨t.entries[i].1.toValue, holds i⟩
  have injective : Function.Injective represented := by
    intro i j same
    have keys : t.entries[i].1 = t.entries[j].1 := ((keyed i).eq_iff (keyed j)).mpr (Quotient.exact same)
    have positions : (t.entries.map Prod.fst)[i.1]? = (t.entries.map Prod.fst)[j.1]? := by simpa using keys
    exact Fin.ext ((List.getElem?_inj (by simp) proper.distinct).mp positions)
  have surjective : Function.Surjective represented := by
    intro found
    induction found using Quotient.inductionOn with
    | h key =>
      obtain ⟨k, keyed', held⟩ := of_get key.2
      obtain ⟨e, member, rfl⟩ := proper.find_ne_nil_iff.mp held
      obtain ⟨i, inside, rfl⟩ := List.getElem_of_mem member
      exact ⟨⟨i, inside⟩, Quotient.sound (((keyed ⟨i, inside⟩).eq_iff keyed').mp rfl)⟩
  rw [← Nat.card_eq_of_bijective represented ⟨injective, surjective⟩, Nat.card_fin, size]

/-- Keys are equal if the values are, and numbers are if their exact values are. A set fails for what has no key and
then changes nothing. So after any sets there is under a key what has last been set under an equal one, and the size
is the number of keys that hold a value, where equal ones count once. -/
theorem tables_follow_equality :
    (∀ (v w : Value) k l, Key.ofValue v = .ok k → Key.ofValue w = .ok l → (k = l ↔ v.same w = true)) ∧
    (∀ (v w : Value) m n, v.units? = some m → w.units? = some n → (v.same w = true ↔ m = n)) ∧
    (∀ (t : Table) key value, ((∃ next, t.set key value = .ok next) ↔ ∃ k, Key.Of key k) ∧
      ∀ e, t.set key value = .error e → t.after (key, value) = t) ∧
    ∀ metatable ops, (∀ key, (assigned metatable ops).get key = (lastSet? ops key).getD .nil) ∧
      Nat.card (Quotient (assigned metatable ops).holding) = (assigned metatable ops).size := by
  refine ⟨?_, fun v w m n => Value.same_iff_units, fun t key value => ⟨set_ok_iff, fun e => after_of_error⟩, ?_⟩
  · intro v w k l first second
    exact (Key.of_iff.mpr first).eq_iff (Key.of_iff.mpr second)
  · intro metatable ops
    have empty : Proper ⟨[], metatable⟩ := ⟨List.nodup_nil, by simp, by simp⟩
    refine ⟨fun key => ?_, (empty.foldl_after ops).card_holding⟩
    rw [assigned, get_foldl_after, get_nil]

/-- Zeros of all kinds are one key, but the float after the last integer is not the last integer. -/
theorem tables_follow_equality_zeros :
    ∃ t, t = assigned none [(.int 0, .str "a"), (.float ⟨0x8000000000000000⟩, .str "b"),
        (.float ⟨0x43e0000000000000⟩, .str "c"), (.int Int64.maxValue, .str "d"), (.nil, .str "e")] ∧
      t.get (.float ⟨0⟩) = .str "b" ∧ t.get (.int Int64.maxValue) = .str "d" ∧ Nat.card (Quotient t.holding) = 3 := by
  obtain ⟨found, count⟩ := tables_follow_equality.2.2.2 none [(.int 0, .str "a"),
    (.float ⟨0x8000000000000000⟩, .str "b"), (.float ⟨0x43e0000000000000⟩, .str "c"), (.int Int64.maxValue, .str "d"),
    (.nil, .str "e")]
  refine ⟨_, rfl, (found _).trans ?_, (found _).trans ?_, count.trans ?_⟩
  all_goals decide +kernel

end Table

end CoopScript
