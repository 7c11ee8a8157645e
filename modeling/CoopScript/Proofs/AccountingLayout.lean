import CoopScript.Script.Accounting
import CoopScript.Script.Proto
import Mathlib

/-! Where the accounting pass puts things. Two codes with the same instructions besides
accounting have the same stripped code, and a place in either is known by the number of plain
instructions before it. The pass inserts prologues only, and moves each jump to a place with as
many plain instructions before it, so instrumented code strips to what the original does. -/

namespace CoopScript

/-- How many plain instructions, those other than accounting, come before the index. -/
def plainBefore (code : List Instr) (i : Nat) : Nat := ((code.take i).filter (!·.isAccounting)).length

section Stripped

variable {code : List Instr} {instr : Instr} {i : Nat}

theorem plainBefore_zero (code : List Instr) : plainBefore code 0 = 0 := by
  simp [plainBefore]

theorem plainBefore_le (code : List Instr) (i : Nat) : plainBefore code i ≤ code.length :=
  Nat.le_trans (List.length_filter_le _ _) (List.length_take_le' i code)

theorem stripAccounting_length (code : List Instr) :
    (stripAccounting code).length = (code.filter (!·.isAccounting)).length := by
  simp [stripAccounting]

theorem stripAccounting_length_le (code : List Instr) : (stripAccounting code).length ≤ code.length := by
  rw [stripAccounting_length]
  exact List.length_filter_le _ _

theorem plainBefore_le_stripped (code : List Instr) (i : Nat) : plainBefore code i ≤ (stripAccounting code).length := by
  rw [stripAccounting_length]
  exact ((List.take_sublist i code).filter _).length_le

theorem plainBefore_end (beyond : code[i]? = none) : plainBefore code i = (stripAccounting code).length := by
  rw [stripAccounting_length, plainBefore, List.take_of_length_le (List.getElem?_eq_none_iff.mp beyond)]

private theorem take_succ_of_getElem? (found : code[i]? = some instr) : code.take (i + 1) = code.take i ++ [instr] := by
  rw [List.take_add_one, found]
  rfl

theorem plainBefore_accounting (found : code[i]? = some instr) (accounting : instr.isAccounting = true) :
    plainBefore code (i + 1) = plainBefore code i := by
  simp [plainBefore, take_succ_of_getElem? found, accounting]

theorem plainBefore_plain (found : code[i]? = some instr) (plain : instr.isAccounting = false) :
    plainBefore code (i + 1) = plainBefore code i + 1 := by
  simp [plainBefore, take_succ_of_getElem? found, plain]

theorem stripAccounting_getElem? (found : code[i]? = some instr) (plain : instr.isAccounting = false) :
    (stripAccounting code)[plainBefore code i]? = some (instr.retarget (plainBefore code)) := by
  obtain ⟨inside, rfl⟩ := List.getElem?_eq_some_iff.mp found
  have parted : code = code.take i ++ code[i] :: code.drop (i + 1) := by
    rw [← List.drop_eq_getElem_cons inside, List.take_append_drop]
  have kept : code.filter (!·.isAccounting) =
      (code.take i).filter (!·.isAccounting) ++ code[i] :: (code.drop (i + 1)).filter (!·.isAccounting) := by
    have filtered := congrArg (List.filter (!·.isAccounting)) parted
    rwa [List.filter_append, List.filter_cons_of_pos (by simp [plain])] at filtered
  change ((code.filter (!·.isAccounting)).map (Instr.retarget (plainBefore code)))[plainBefore code i]? = _
  rw [List.getElem?_map, kept, plainBefore, List.getElem?_append_right (Nat.le_refl _), Nat.sub_self]
  rfl

theorem retarget_isAccounting (f : Nat → Nat) (instr : Instr) : (instr.retarget f).isAccounting = instr.isAccounting := by
  cases instr <;> rfl

theorem stripAccounting_plain {code : List Instr} {instr : Instr} (member : instr ∈ stripAccounting code) :
    instr.isAccounting = false := by
  obtain ⟨original, kept, rfl⟩ := List.mem_map.mp member
  rw [retarget_isAccounting]
  simpa using (List.mem_filter.mp kept).2

theorem retarget_target? (f : Nat → Nat) (instr : Instr) :
    (instr.retarget f).target? = instr.target?.map fun target => f target % UInt32.size := by
  cases instr <;> rfl

theorem stripAccounting_target {code : List Instr} {target : Nat} (member : instr ∈ stripAccounting code)
    (jumps : instr.target? = some target) : target ≤ (stripAccounting code).length := by
  obtain ⟨original, _, rfl⟩ := List.mem_map.mp member
  rw [retarget_target?] at jumps
  obtain ⟨before, _, rfl⟩ := Option.map_eq_some_iff.mp jumps
  exact Nat.le_trans (Nat.mod_le _ _) (plainBefore_le_stripped code before)

end Stripped

/-- The accounting in front of the instruction at an index. -/
def prologue (body : List Instr) (costs : CostTable) (i : Nat) : List Instr :=
  if isLeader body i then [.charge (blockCost body costs i), .tick] else []

/-- The instrumented form of a stretch of plain instructions that ends before the index. -/
def accounted (body : List Instr) (costs : CostTable) (stop : Nat) : List Instr :=
  (body.zipIdx.take stop).flatMap fun (instr, i) => prologue body costs i ++ [instr.retarget (relocated body)]

theorem instrument_eq_accounted (code : List Instr) (costs : CostTable) :
    instrument code costs = accounted (stripAccounting code) costs (stripAccounting code).length := by
  rw [accounted, List.take_of_length_le (by simp)]
  rfl

section Accounted

variable {body : List Instr} {instr : Instr} {i : Nat}

theorem accounted_succ (costs : CostTable) (found : body[i]? = some instr) : accounted body costs (i + 1) =
    accounted body costs i ++ (prologue body costs i ++ [instr.retarget (relocated body)]) := by
  simp [accounted, List.take_add_one, found]

theorem accounted_split (costs : CostTable) (found : body[i]? = some instr) : ∃ rest, accounted body costs body.length =
    accounted body costs i ++ (prologue body costs i ++ instr.retarget (relocated body) :: rest) := by
  have inside : i < body.length := (List.getElem?_eq_some_iff.mp found).1
  have parted : body.zipIdx.take body.length =
      body.zipIdx.take i ++ (instr, i) :: (body.zipIdx.drop (i + 1)) := by
    have there : body.zipIdx[i]? = some (instr, i) := by simp [found]
    obtain ⟨bound, here⟩ := List.getElem?_eq_some_iff.mp there
    rw [List.take_of_length_le (by simp), ← here, ← List.drop_eq_getElem_cons bound, List.take_append_drop]
  refine ⟨(body.zipIdx.drop (i + 1)).flatMap fun (instr, i) =>
    prologue body costs i ++ [instr.retarget (relocated body)], ?_⟩
  rw [accounted, parted, List.flatMap_append, List.flatMap_cons]
  simp [accounted]

theorem leadersBefore_succ (inside : i < body.length) :
    leadersBefore body (i + 1) = leadersBefore body i + if isLeader body i then 1 else 0 := by
  have here : min (i + 1) body.length = i + 1 := Nat.min_eq_left inside
  have before : min i body.length = i := Nat.min_eq_left (Nat.le_of_lt inside)
  rw [leadersBefore, leadersBefore, here, before, List.range_succ, List.filter_append, List.length_append]
  cases leads : isLeader body i <;> simp [leads]

theorem leadersBefore_le (body : List Instr) (i : Nat) : leadersBefore body i ≤ body.length := by
  rw [leadersBefore]
  refine Nat.le_trans (List.length_filter_le _ _) ?_
  rw [List.length_range]
  exact Nat.min_le_right i body.length

theorem prologue_length (body : List Instr) (costs : CostTable) (i : Nat) :
    (prologue body costs i).length = 2 * if isLeader body i then 1 else 0 := by
  rw [prologue]
  split <;> rfl

/-- The pass puts an instruction, with its prologue, where jumps to it are moved. -/
theorem accounted_length (costs : CostTable) (within : i ≤ body.length) :
    (accounted body costs i).length = relocated body i := by
  induction i with
  | zero => simp [accounted, relocated, leadersBefore]
  | succ i ih =>
    have found : body[i]? = some body[i] := List.getElem?_eq_getElem within
    rw [accounted_succ costs found, List.length_append, List.length_append, ih (Nat.le_of_lt within), prologue_length,
      relocated, relocated, leadersBefore_succ within, List.length_singleton]
    omega

theorem accounted_filter (costs : CostTable) (plain : ∀ instr ∈ body, instr.isAccounting = false)
    (within : i ≤ body.length) :
    (accounted body costs i).filter (!·.isAccounting) = (body.take i).map (Instr.retarget (relocated body)) := by
  induction i with
  | zero => simp [accounted]
  | succ i ih =>
    have found : body[i]? = some body[i] := List.getElem?_eq_getElem within
    have kept : (body[i].retarget (relocated body)).isAccounting = false := by
      rw [retarget_isAccounting]
      exact plain _ (List.getElem_mem within)
    have dropped : (prologue body costs i).filter (!·.isAccounting) = [] := by
      rw [prologue]
      split <;> rfl
    rw [accounted_succ costs found, List.filter_append, List.filter_append, ih (Nat.le_of_lt within), dropped,
      List.nil_append, List.filter_cons_of_pos (by simp [kept]), List.filter_nil, List.take_add_one, found,
      List.map_append]
    rfl

/-- A place that jumps are moved to has as many plain instructions before it as the old one. -/
theorem plainBefore_relocated (costs : CostTable) (plain : ∀ instr ∈ body, instr.isAccounting = false)
    (within : i ≤ body.length) :
    plainBefore (accounted body costs body.length) (relocated body i) = i := by
  have front : (accounted body costs body.length).take (relocated body i) = accounted body costs i := by
    rw [← accounted_length costs within]
    rcases Nat.lt_or_ge i body.length with inside | beyond
    · obtain ⟨rest, parted⟩ := accounted_split costs (List.getElem?_eq_getElem inside)
      rw [parted, List.take_left]
    · rw [Nat.le_antisymm within beyond, List.take_length]
  rw [plainBefore, front, accounted_filter costs plain within, List.length_map, List.length_take]
  exact Nat.min_eq_left within

theorem relocated_le (within : i ≤ body.length) : relocated body i ≤ 3 * body.length := by
  have few := leadersBefore_le body i
  rw [relocated]
  omega

theorem relocated_mono {j : Nat} (order : i ≤ j) (within : j ≤ body.length) : relocated body i ≤ relocated body j := by
  induction order with
  | refl => exact Nat.le_refl _
  | @step j order ih =>
    refine Nat.le_trans (ih (Nat.le_of_lt within)) ?_
    rw [relocated, relocated, leadersBefore_succ within]
    omega

end Accounted

private theorem retarget_retarget {f g : Nat → Nat} {instr : Instr}
    (back : ∀ target, instr.target? = some target → g (f target % UInt32.size) % UInt32.size = target) :
    (instr.retarget f).retarget g = instr := by
  cases instr with
  | jump target => exact congrArg Instr.jump (back target rfl)
  | jumpIfNot cond target => exact congrArg (Instr.jumpIfNot cond) (back target rfl)
  | _ => rfl

/-- Instrumented code is the original with other accounting. -/
theorem stripAccounting_instrument {code : List Instr} (short : code.length < 2 ^ 30) (costs : CostTable) :
    stripAccounting (instrument code costs) = stripAccounting code := by
  have bound := stripAccounting_length_le code
  have targets (instr : Instr) (member : instr ∈ stripAccounting code) (target : Nat)
      (jumps : instr.target? = some target) := stripAccounting_target member jumps
  have plain (instr : Instr) (member : instr ∈ stripAccounting code) := stripAccounting_plain member
  rw [instrument_eq_accounted]
  generalize stripAccounting code = body at bound targets plain
  change ((accounted body costs body.length).filter (!·.isAccounting)).map
    (Instr.retarget (plainBefore (accounted body costs body.length))) = body
  rw [accounted_filter costs plain (Nat.le_refl _), List.take_length, List.map_map]
  refine (List.map_congr_left fun instr member => ?_).trans (List.map_id body)
  refine retarget_retarget fun target jumps => ?_
  have within := targets instr member target jumps
  have short : relocated body target < UInt32.size := by
    have few := relocated_le within
    simp only [UInt32.size]
    omega
  rw [Nat.mod_eq_of_lt short, plainBefore_relocated costs plain within]
  exact Nat.mod_eq_of_lt (by simp only [UInt32.size]; omega)

/-- The pass replaces the accounting that is there, whatever costs it was made with. -/
theorem instrument_instrument {code : List Instr} (short : code.length < 2 ^ 30) (before costs : CostTable) :
    instrument (instrument code before) costs = instrument code costs := by
  rw [instrument, stripAccounting_instrument short before]
  rfl

/-- A loop with accounting of its own, a jump past its end and a jump onto a charge. -/
theorem instrument_instrument_loop : [Instr.jumpIfNot 0 9, .charge 7, .tick, .move 0 1, .jump 1].length < 2 ^ 30 ∧
    instrument (instrument [.jumpIfNot 0 9, .charge 7, .tick, .move 0 1, .jump 1] (.uniform 3)) {} =
      instrument [.jumpIfNot 0 9, .charge 7, .tick, .move 0 1, .jump 1] {} :=
  ⟨by decide, instrument_instrument (by decide) (.uniform 3) {}⟩

namespace Proto

/-- The prototype has what an instruction demands. -/
def Meets (p : Proto) : Operand → Prop
  | .registers stop => stop ≤ p.regs
  | .constant index => index < p.constants.length
  | .target index => index ≤ p.code.length

theorem fault?_eq_none {p : Proto} {offset : Nat} {operand : Operand} :
    p.fault? offset operand = none ↔ p.Meets operand := by
  cases operand <;> simp [fault?, Meets]

/-- A prototype is accepted if its parameters fit and it meets every demand of its code. -/
theorem verified_iff {p q : Proto} : p.verified = .ok q ↔
    p = q ∧ p.params ≤ p.regs ∧ ∀ instr ∈ p.code, ∀ operand ∈ instr.operands, p.Meets operand := by
  have sound : p.faults = [] ↔ p.params ≤ p.regs ∧ ∀ instr ∈ p.code, ∀ operand ∈ instr.operands, p.Meets operand := by
    simp only [faults, List.append_eq_nil_iff, List.flatMap_eq_nil_iff, List.filterMap_eq_nil_iff, fault?_eq_none]
    refine and_congr ?_ ⟨?_, ?_⟩
    · split <;> simp <;> omega
    · intro met instr member
      obtain ⟨i, here⟩ := List.getElem?_of_mem member
      exact met (instr, i) (List.mk_mem_zipIdx_iff_getElem?.mpr here)
    · intro met (instr, i) member
      exact met instr (List.mem_of_getElem? (List.mk_mem_zipIdx_iff_getElem?.mp member))
  rw [← sound, verified]
  cases p.faults <;> simp

end Proto

private theorem operands_retarget {f : Nat → Nat} {instr : Instr} {operand : Operand}
    (demanded : operand ∈ (instr.retarget f).operands) :
    (∃ index, operand = .target index ∧ (instr.retarget f).target? = some index) ∨
      operand ∈ instr.operands ∧ ∀ index, operand ≠ .target index := by
  cases instr with
  | jump target =>
    cases List.mem_singleton.mp demanded
    exact .inl ⟨_, rfl, rfl⟩
  | jumpIfNot cond target =>
    rcases List.mem_cons.mp demanded with rfl | demanded
    · exact .inr ⟨List.mem_cons_self, by simp⟩
    · cases List.mem_singleton.mp demanded
      exact .inl ⟨_, rfl, rfl⟩
  | _ =>
    refine .inr ⟨demanded, ?_⟩
    rintro index rfl
    simp [Instr.retarget, Instr.operands] at demanded

theorem mem_instrument {code : List Instr} {costs : CostTable} {instr : Instr} (member : instr ∈ instrument code costs) :
    instr.isAccounting = true ∨ ∃ original ∈ code, instr =
      (original.retarget (plainBefore code)).retarget (relocated (stripAccounting code)) := by
  obtain ⟨⟨stripped, i⟩, here, member⟩ := List.mem_flatMap.mp member
  rcases List.mem_append.mp member with added | moved
  · refine .inl ?_
    split at added
    · rcases List.mem_cons.mp added with rfl | added
      · rfl
      · cases List.mem_singleton.mp added
        rfl
    · cases added
  · cases List.mem_singleton.mp moved
    have kept := List.mem_of_getElem? (List.mk_mem_zipIdx_iff_getElem?.mp here)
    obtain ⟨original, plain, rfl⟩ := List.mem_map.mp kept
    exact .inr ⟨original, (List.mem_filter.mp plain).1, rfl⟩

/-- A prototype that is accepted is accepted with accounting. -/
theorem Proto.withCode_instrument {p : Proto} (verified : p.verified = .ok p) (costs : CostTable) :
    p.withCode (instrument p.code costs) = .ok { p with code := instrument p.code costs } := by
  obtain ⟨_, params, met⟩ := verified_iff.mp verified
  refine verified_iff.mpr ⟨rfl, params, fun instr member operand demanded => ?_⟩
  rcases mem_instrument member with accounting | ⟨original, kept, rfl⟩
  · cases instr with
    | charge _ | tick => cases demanded
    | _ => cases accounting
  · rcases operands_retarget demanded with ⟨index, rfl, jumps⟩ | ⟨demanded, other⟩
    · rw [retarget_target?, retarget_target?, Option.map_map] at jumps
      obtain ⟨target, _, rfl⟩ := Option.map_eq_some_iff.mp jumps
      refine Nat.le_trans (Nat.mod_le _ _) ?_
      change _ ≤ (instrument p.code costs).length
      rw [instrument_eq_accounted, accounted_length costs (Nat.le_refl _)]
      refine relocated_mono ?_ (Nat.le_refl _)
      exact Nat.le_trans (Nat.mod_le _ _) (plainBefore_le_stripped _ _)
    · rcases operands_retarget demanded with ⟨index, same, _⟩ | ⟨demanded, _⟩
      · exact absurd same (other index)
      · have fits := met original kept operand demanded
        cases operand with
        | registers _ | constant _ => exact fits
        | target index => exact absurd rfl (other index)

end CoopScript
