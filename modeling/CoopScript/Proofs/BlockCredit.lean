import CoopScript.Proofs.AccountingLayout

/-! Credit between charges. A place in a code has a credit: the plain instructions that can be
run from there before a charge has to be paid again. In instrumented code a call starts and a
jump lands without credit, and no charge is free, so nothing runs that has not been paid for. -/

namespace CoopScript

def Instr.isCharge : Instr → Bool
  | charge _ => true
  | _ => false

/-- The instructions from a place up to the next charge. -/
def stretch (code : List Instr) (pc : Nat) : List Instr := (code.drop pc).takeWhile (!·.isCharge)

/-- The plain instructions from a place up to the next charge. -/
def credit (code : List Instr) (pc : Nat) : Nat :=
  (((code.drop pc).takeWhile (!·.isCharge)).filter (!·.isAccounting)).length

section Credit

variable {code : List Instr} {instr : Instr} {pc : Nat}

theorem credit_le (code : List Instr) (pc : Nat) : credit code pc ≤ code.length := by
  refine Nat.le_trans (List.length_filter_le _ _) ?_
  exact ((List.takeWhile_sublist _).trans (List.drop_sublist pc code)).length_le

theorem stretch_end (beyond : code.length ≤ pc) : stretch code pc = [] := by
  rw [stretch, List.drop_eq_nil_of_le beyond, List.takeWhile_nil]

private theorem drop_of_getElem? (found : code[pc]? = some instr) : code.drop pc = instr :: code.drop (pc + 1) := by
  obtain ⟨inside, rfl⟩ := List.getElem?_eq_some_iff.mp found
  exact List.drop_eq_getElem_cons inside

theorem stretch_charge {cost : Nat} (found : code[pc]? = some (.charge cost)) : stretch code pc = [] := by
  simp [stretch, drop_of_getElem? found, Instr.isCharge]

theorem stretch_next (found : code[pc]? = some instr) (other : instr.isCharge = false) :
    stretch code pc = instr :: stretch code (pc + 1) := by
  simp [stretch, drop_of_getElem? found, other]

theorem isCharge_of_plain (plain : instr.isAccounting = false) : instr.isCharge = false := by
  cases instr <;> first | rfl | cases plain

theorem credit_charge {cost : Nat} (found : code[pc]? = some (.charge cost)) : credit code pc = 0 :=
  congrArg (fun left => (left.filter (!·.isAccounting)).length) (stretch_charge found)

theorem credit_tick (found : code[pc]? = some .tick) : credit code (pc + 1) = credit code pc :=
  (congrArg (fun left => (left.filter (!·.isAccounting)).length) (stretch_next found rfl)).symm

theorem credit_plain (found : code[pc]? = some instr) (plain : instr.isAccounting = false) :
    credit code (pc + 1) + 1 = credit code pc := by
  have next := congrArg (fun left => (left.filter (!·.isAccounting)).length) (stretch_next found (isCharge_of_plain plain))
  simp only [List.filter_cons, plain, Bool.not_false, if_true, List.length_cons] at next
  exact next.symm

end Credit

/-- Code that is paid for: calls start and jumps land without credit, and a charge takes
something and is followed by a tick and an instruction. -/
structure PaidFor (code : List Instr) : Prop where
  start : credit code 0 = 0
  targets : ∀ {pc target : Nat} {instr : Instr}, code[pc]? = some instr → instr.target? = some target →
    credit code target = 0
  charges : ∀ {pc cost : Nat}, code[pc]? = some (.charge cost) → 1 ≤ cost ∧ code[pc + 1]? = some .tick
  ticks : ∀ {pc : Nat} {instr : Instr}, code[pc]? = some .tick → code[pc + 1]? = some instr → instr.isAccounting = false

section Instrumented

variable {body : List Instr} {costs : CostTable} {i : Nat}

theorem accounted_leader (inside : i < body.length) (leads : isLeader body i = true) :
    (accounted body costs body.length)[relocated body i]? = some (.charge (blockCost body costs i)) ∧
      (accounted body costs body.length)[relocated body i + 1]? = some .tick ∧
      (accounted body costs body.length)[relocated body i + 2]? = some (body[i].retarget (relocated body)) := by
  obtain ⟨rest, parted⟩ := accounted_split costs (List.getElem?_eq_getElem inside)
  rw [parted, ← accounted_length costs (Nat.le_of_lt inside), prologue, if_pos leads]
  refine ⟨?_, ?_, ?_⟩
  · rw [List.getElem?_append_right (Nat.le_refl _), Nat.sub_self]
    rfl
  · rw [List.getElem?_append_right (Nat.le_add_right _ _), Nat.add_sub_cancel_left]
    rfl
  · rw [List.getElem?_append_right (Nat.le_add_right _ _), Nat.add_sub_cancel_left]
    rfl

/-- Every place belongs to the prologue of an instruction of the body or is that of the
instruction itself. -/
theorem accounted_locate {pc stop : Nat} (within : stop ≤ body.length) (inside : pc < (accounted body costs stop).length) :
    ∃ i < stop, relocated body i ≤ pc ∧ pc < relocated body (i + 1) := by
  induction stop with
  | zero => simp [accounted] at inside
  | succ stop ih =>
    rw [accounted_length costs within] at inside
    have before : stop ≤ body.length := Nat.le_of_lt within
    rcases Nat.lt_or_ge pc (relocated body stop) with earlier | here
    · rw [accounted_length costs before] at ih
      obtain ⟨i, bound, place⟩ := ih before earlier
      exact ⟨i, Nat.lt_succ_of_lt bound, place⟩
    · exact ⟨stop, Nat.lt_succ_self stop, here, inside⟩

theorem accounted_getElem? {pc : Nat} {instr : Instr} (found : (accounted body costs body.length)[pc]? = some instr) :
    (∃ i, i < body.length ∧ isLeader body i = true ∧ pc = relocated body i ∧ instr = .charge (blockCost body costs i)) ∨
      (∃ i, i < body.length ∧ isLeader body i = true ∧ pc = relocated body i + 1 ∧ instr = .tick) ∨
      ∃ i original, body[i]? = some original ∧ pc + 1 = relocated body (i + 1) ∧
        instr = original.retarget (relocated body) := by
  obtain ⟨inside, _⟩ := List.getElem?_eq_some_iff.mp found
  obtain ⟨i, bound, low, high⟩ := accounted_locate (Nat.le_refl _) inside
  obtain ⟨rest, parted⟩ := accounted_split costs (List.getElem?_eq_getElem bound)
  have length := accounted_length costs (Nat.le_of_lt bound)
  have next : relocated body (i + 1) = relocated body i + (2 * (if isLeader body i then 1 else 0) + 1) := by
    rw [relocated, relocated, leadersBefore_succ bound]
    omega
  rw [parted, List.getElem?_append_right (by omega), length] at found
  rw [next] at high
  cases leads : isLeader body i with
  | false =>
    rw [leads] at high next
    have here : pc - relocated body i = 0 := by
      simp only [Bool.false_eq_true, if_false] at high
      omega
    rw [here, prologue, leads] at found
    refine .inr (.inr ⟨i, body[i], List.getElem?_eq_getElem bound, ?_, (Option.some.inj found).symm⟩)
    simp only [Bool.false_eq_true, if_false] at next
    omega
  | true =>
    rw [leads] at high next
    rw [prologue, leads] at found
    simp only [if_true] at high next
    obtain gap | gap | gap : pc - relocated body i = 0 ∨ pc - relocated body i = 1 ∨ pc - relocated body i = 2 := by omega
    · rw [gap] at found
      exact .inl ⟨i, bound, leads, by omega, (Option.some.inj found).symm⟩
    · rw [gap] at found
      exact .inr (.inl ⟨i, bound, leads, by omega, (Option.some.inj found).symm⟩)
    · rw [gap] at found
      exact .inr (.inr ⟨i, body[i], List.getElem?_eq_getElem bound, by omega, (Option.some.inj found).symm⟩)

theorem relocated_zero (body : List Instr) : relocated body 0 = 0 := by
  simp [relocated, leadersBefore]

theorem isLeader_of_target {original : Instr} {target : Nat} (member : original ∈ body)
    (jumps : original.target? = some target) : isLeader body target = true := by
  have named : body.any (fun instr => instr.target? == some target) = true :=
    List.any_eq_true.mpr ⟨original, member, by simp [jumps]⟩
  simp [isLeader, named]

/-- Where a block starts there is its charge, and behind the last one there is nothing. -/
theorem stretch_accounted (costs : CostTable) (within : i ≤ body.length) (leads : i < body.length → isLeader body i = true) :
    stretch (accounted body costs body.length) (relocated body i) = [] := by
  rcases Nat.lt_or_ge i body.length with inside | beyond
  · exact stretch_charge (accounted_leader inside (leads inside)).1
  · rw [Nat.le_antisymm within beyond]
    exact stretch_end (Nat.le_of_eq (accounted_length costs (Nat.le_refl body.length)))

/-- A jump that can be told where to go leads to the start of a block. -/
theorem accounted_jump {pc target : Nat} {instr : Instr} (found : (accounted body costs body.length)[pc]? = some instr)
    (jumps : instr.target? = some target) : ∃ original ∈ body, ∃ before, original.target? = some before ∧
      target = relocated body before % UInt32.size ∧ isLeader body before = true := by
  rcases accounted_getElem? found with ⟨_, _, _, _, rfl⟩ | ⟨_, _, _, _, rfl⟩ | ⟨_, original, here, -, rfl⟩
  · cases jumps
  · cases jumps
  · have member := List.mem_of_getElem? here
    rw [retarget_target?] at jumps
    obtain ⟨before, aims, rfl⟩ := Option.map_eq_some_iff.mp jumps
    exact ⟨original, member, before, aims, rfl, isLeader_of_target member aims⟩

private theorem le_foldl_add (g : Nat → Nat) (list : List Nat) (start : Nat) :
    start ≤ list.foldl (fun total j => total + g j) start := by
  induction list generalizing start with
  | nil => exact Nat.le_refl _
  | cons j list ih => exact Nat.le_trans (Nat.le_add_right _ _) (ih _)

private theorem category_of_plain {instr : Instr} (plain : instr.isAccounting = false) :
    ∃ category, instr.category = some category := by
  cases instr <;> first | exact ⟨_, rfl⟩ | cases plain

theorem blockCost_pos (plain : ∀ instr ∈ body, instr.isAccounting = false) (positive : ∀ category, 1 ≤ costs.cost category)
    (inside : i < body.length) : 1 ≤ blockCost body costs i := by
  obtain ⟨category, kind⟩ := category_of_plain (plain _ (List.getElem_mem inside))
  have first : body[i]?.bind Instr.category = some category := by
    rw [List.getElem?_eq_getElem inside]
    exact kind
  refine Nat.le_min.mpr ⟨by decide, ?_⟩
  rw [blockFrom, List.foldl_cons]
  refine Nat.le_trans ?_ (le_foldl_add _ _ _)
  simp only [first, Nat.zero_add]
  exact positive category

end Instrumented

/-- Instrumented code is paid for, if every instruction costs something and jumps can be told
where to go. -/
theorem instrument_paidFor {code : List Instr} {costs : CostTable} (positive : ∀ category, 1 ≤ costs.cost category)
    (short : (instrument code costs).length < UInt32.size) : PaidFor (instrument code costs) := by
  have targets (instr : Instr) (member : instr ∈ stripAccounting code) (target : Nat)
      (jumps : instr.target? = some target) := stripAccounting_target member jumps
  have plain (instr : Instr) (member : instr ∈ stripAccounting code) := stripAccounting_plain member
  rw [instrument_eq_accounted] at short ⊢
  generalize stripAccounting code = body at targets plain short
  have length := accounted_length costs (Nat.le_refl body.length)
  have landing {i : Nat} (within : i ≤ body.length) (leads : i < body.length → isLeader body i = true) :
      credit (accounted body costs body.length) (relocated body i) = 0 :=
    congrArg (fun left => (left.filter (!·.isAccounting)).length) (stretch_accounted costs within leads)
  refine ⟨?_, ?_, ?_, ?_⟩
  · rw [← relocated_zero body]
    exact landing (Nat.zero_le _) fun _ => rfl
  · intro pc target instr found jumps
    obtain ⟨original, member, before, aims, rfl, leads⟩ := accounted_jump found jumps
    have within := targets original member before aims
    have fits : relocated body before < UInt32.size :=
      Nat.lt_of_le_of_lt (relocated_mono within (Nat.le_refl _)) (length ▸ short)
    rw [Nat.mod_eq_of_lt fits]
    exact landing within fun _ => leads
  · intro pc cost found
    rcases accounted_getElem? found with ⟨i, inside, leads, rfl, same⟩ | ⟨_, _, _, _, same⟩ | ⟨_, original, here, -, same⟩
    · cases same
      exact ⟨blockCost_pos plain positive inside, (accounted_leader inside leads).2.1⟩
    · cases same
    · have kind := plain original (List.mem_of_getElem? here)
      rw [← retarget_isAccounting (relocated body), ← same] at kind
      cases kind
  · intro pc instr found next
    rcases accounted_getElem? found with ⟨_, _, _, _, same⟩ | ⟨i, inside, leads, rfl, _⟩ | ⟨_, original, here, -, same⟩
    · cases same
    · rw [(accounted_leader inside leads).2.2] at next
      cases next
      rw [retarget_isAccounting]
      exact plain _ (List.getElem_mem inside)
    · have kind := plain original (List.mem_of_getElem? here)
      rw [← retarget_isAccounting (relocated body), ← same] at kind
      cases kind

end CoopScript
