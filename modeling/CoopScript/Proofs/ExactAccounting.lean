import CoopScript.Proofs.BlockCredit
import CoopScript.Proofs.PendingCalls

/-! Exact accounting. Code is prepaid, at every place, for the instructions that can be run from
there before the next charge: a block's charge prepays the block, and every way out of a block finds
nothing left of it. A frame that waits in the middle of a block keeps what is prepaid for the rest.
So at any moment of a call the charges are the price of what has been run together with what is
prepaid, through whatever suspensions, and at the end of the call nothing is left. -/

namespace CoopScript

/-- What an instruction costs. Accounting is free. -/
def CostTable.price (costs : CostTable) (instr : Instr) : Nat := (instr.category.map costs.cost).getD 0

def CostTable.total (costs : CostTable) (instrs : List Instr) : Nat := (instrs.map costs.price).sum

/-- What an instruction takes from the budget. -/
def Instr.charged : Instr → Nat
  | charge cost => cost
  | _ => 0

def charges (instrs : List Instr) : Nat := (instrs.map Instr.charged).sum

/-- The price of what can be run from a place before the next charge. -/
def prepaid (costs : CostTable) (code : List Instr) (pc : Nat) : Nat := costs.total (stretch code pc)

/-- The price of the block that starts at the index. -/
def blockPrice (body : List Instr) (costs : CostTable) (i : Nat) : Nat :=
  ((blockFrom body i).map fun j => (body[j]?.map costs.price).getD 0).sum

section Price

variable {costs : CostTable} {instr : Instr}

@[simp] theorem CostTable.total_nil (costs : CostTable) : costs.total [] = 0 := rfl

@[simp] theorem CostTable.total_cons (costs : CostTable) (instr : Instr) (rest : List Instr) :
    costs.total (instr :: rest) = costs.price instr + costs.total rest := by
  simp [total]

@[simp] theorem CostTable.total_append (costs : CostTable) (first rest : List Instr) :
    costs.total (first ++ rest) = costs.total first + costs.total rest := by
  simp [total]

@[simp] theorem charges_nil : charges [] = 0 := rfl

@[simp] theorem charges_cons (instr : Instr) (rest : List Instr) :
    charges (instr :: rest) = instr.charged + charges rest := by
  simp [charges]

@[simp] theorem charges_append (first rest : List Instr) : charges (first ++ rest) = charges first + charges rest := by
  simp [charges]

theorem Instr.charged_plain (plain : instr.isAccounting = false) : instr.charged = 0 := by
  cases instr <;> first | rfl | cases plain

theorem CostTable.price_retarget (costs : CostTable) (f : Nat → Nat) (instr : Instr) :
    costs.price (instr.retarget f) = costs.price instr := by
  cases instr <;> rfl

end Price

section Prepaid

variable {costs : CostTable} {code : List Instr} {instr : Instr} {pc : Nat}

theorem prepaid_charge {cost : Nat} (found : code[pc]? = some (.charge cost)) : prepaid costs code pc = 0 :=
  congrArg costs.total (stretch_charge found)

theorem prepaid_end (beyond : code[pc]? = none) : prepaid costs code pc = 0 :=
  congrArg costs.total (stretch_end (List.getElem?_eq_none_iff.mp beyond))

theorem prepaid_next (costs : CostTable) (found : code[pc]? = some instr) (other : instr.isCharge = false) :
    prepaid costs code pc = costs.price instr + prepaid costs code (pc + 1) := by
  rw [prepaid, stretch_next found other, CostTable.total_cons]
  rfl

end Prepaid

section Blocks

variable {body : List Instr} {costs : CostTable} {i : Nat}

private theorem foldl_add (g : Nat → Nat) (list : List Nat) (start : Nat) :
    list.foldl (fun total j => total + g j) start = start + (list.map g).sum := by
  induction list generalizing start with
  | nil => rfl
  | cons j list ih =>
    rw [List.foldl_cons, ih, List.map_cons, List.sum_cons, Nat.add_assoc]

theorem blockCost_eq (body : List Instr) (costs : CostTable) (i : Nat) :
    blockCost body costs i = min costLimit (blockPrice body costs i) := by
  simp only [blockCost, foldl_add, Nat.zero_add, blockPrice]
  refine congrArg (fun g => min costLimit ((blockFrom body i).map g).sum) (funext fun j => ?_)
  cases body[j]? with
  | none => rfl
  | some instr => cases instr <;> rfl

theorem blockPrice_eq (inside : i < body.length) : blockPrice body costs i = costs.price body[i] +
    if i + 1 < body.length ∧ isLeader body (i + 1) = false then blockPrice body costs (i + 1) else 0 := by
  have price : (body[i]?.map costs.price).getD 0 = costs.price body[i] := by simp [inside]
  rw [blockPrice, blockFrom, List.map_cons, List.sum_cons, price]
  refine congrArg (costs.price body[i] + ·) ?_
  rcases Nat.lt_or_ge (i + 1) body.length with more | last
  · obtain ⟨left, length⟩ : ∃ left, body.length - (i + 1) = left + 1 := ⟨body.length - (i + 2), by omega⟩
    have next : body.length - (i + 2) = left := by omega
    rw [length, List.range'_succ, List.takeWhile_cons]
    cases leads : isLeader body (i + 1) with
    | false => simp only [more, Bool.not_false, if_true, and_self, blockPrice, blockFrom, next]
    | true => simp
  · have none : body.length - (i + 1) = 0 := by omega
    rw [none, if_neg (by omega)]
    rfl

/-- The place of an instruction of the body is in front of where the next one's block would start. -/
theorem accounted_instr (costs : CostTable) {pc : Nat} (inside : i < body.length) (place : pc + 1 = relocated body (i + 1)) :
    (accounted body costs body.length)[pc]? = some (body[i].retarget (relocated body)) := by
  obtain ⟨rest, parted⟩ := accounted_split costs (List.getElem?_eq_getElem inside)
  have length := accounted_length costs (Nat.le_of_lt inside)
  have front := prologue_length body costs i
  have next : relocated body (i + 1) = relocated body i + (prologue body costs i).length + 1 := by
    rw [front, relocated, relocated, leadersBefore_succ inside]
    omega
  rw [parted, List.getElem?_append_right (by omega), List.getElem?_append_right (by omega)]
  have here : pc - (accounted body costs i).length - (prologue body costs i).length = 0 := by omega
  rw [here]
  rfl

theorem blockLeads_of_end {original : Instr} (here : body[i]? = some original) (ends : original.endsBlock = true) :
    isLeader body (i + 1) = true := by
  simp [isLeader, here, ends]

/-- From the place of an instruction on, instrumented code is prepaid for the rest of its block. -/
theorem accounted_prepaid (plain : ∀ instr ∈ body, instr.isAccounting = false) {pc : Nat} (inside : i < body.length)
    (place : pc + 1 = relocated body (i + 1)) :
    prepaid costs (accounted body costs body.length) pc = blockPrice body costs i := by
  -- backwards from the end of the body
  induction left : body.length - i generalizing i pc with
  | zero => omega
  | succ left ih =>
    have found := accounted_instr costs inside place
    have kind := plain _ (List.getElem_mem inside)
    rw [prepaid_next costs found (isCharge_of_plain (by rw [retarget_isAccounting]; exact kind)), costs.price_retarget,
      blockPrice_eq inside, place]
    refine congrArg (costs.price body[i] + ·) ?_
    split
    · next inner =>
      refine ih inner.1 ?_ (by omega)
      rw [relocated, relocated, leadersBefore_succ inner.1, inner.2]
      simp only [Bool.false_eq_true, if_false]
      omega
    · next outer =>
      have starts (more : i + 1 < body.length) : isLeader body (i + 1) = true := by
        simpa [more] using outer
      exact congrArg costs.total (stretch_accounted costs inside starts)

end Blocks

/-- Jumps in the instrumented code can be told where to go: targets are words of 32 bits. -/
def Addressable (body : List Instr) : Prop :=
  ∀ instr ∈ body, ∀ target, instr.target? = some target → relocated body target < UInt32.size

/-- Code in which a charge prepays what follows it, and what is prepaid has been run wherever
control leaves the order of the code. -/
structure Billed (costs : CostTable) (code : List Instr) : Prop where
  start : prepaid costs code 0 = 0
  targets : ∀ {pc target : Nat} {instr : Instr}, code[pc]? = some instr → instr.target? = some target →
    prepaid costs code target = 0
  charges : ∀ {pc cost : Nat}, code[pc]? = some (.charge cost) → prepaid costs code (pc + 1) = cost
  ends : ∀ {pc : Nat} {instr : Instr}, code[pc]? = some instr → instr.endsBlock = true →
    prepaid costs code (pc + 1) = 0

theorem instrument_billed {code : List Instr} {costs : CostTable}
    (bounded : ∀ i < (stripAccounting code).length, isLeader (stripAccounting code) i = true →
      blockPrice (stripAccounting code) costs i ≤ costLimit)
    (addressable : Addressable (stripAccounting code)) : Billed costs (instrument code costs) := by
  have targets (instr : Instr) (member : instr ∈ stripAccounting code) (target : Nat)
      (jumps : instr.target? = some target) := stripAccounting_target member jumps
  have plain (instr : Instr) (member : instr ∈ stripAccounting code) := stripAccounting_plain member
  rw [instrument_eq_accounted]
  generalize stripAccounting code = body at bounded addressable targets plain
  have landing {i : Nat} (within : i ≤ body.length) (leads : i < body.length → isLeader body i = true) :
      prepaid costs (accounted body costs body.length) (relocated body i) = 0 :=
    congrArg costs.total (stretch_accounted costs within leads)
  refine ⟨?_, ?_, ?_, ?_⟩
  · rw [← relocated_zero body]
    exact landing (Nat.zero_le _) fun _ => rfl
  · intro pc target instr found jumps
    obtain ⟨original, member, before, aims, rfl, leads⟩ := accounted_jump found jumps
    rw [Nat.mod_eq_of_lt (addressable original member before aims)]
    exact landing (targets original member before aims) fun _ => leads
  · intro pc cost found
    rcases accounted_getElem? found with ⟨i, inside, leads, rfl, same⟩ | ⟨_, _, _, _, same⟩ | ⟨_, original, here, -, same⟩
    · cases same
      have place : relocated body i + 2 + 1 = relocated body (i + 1) := by
        rw [relocated, relocated, leadersBefore_succ inside, leads]
        simp only [if_true]
        omega
      rw [prepaid_next costs (accounted_leader inside leads).2.1 rfl, accounted_prepaid plain inside place, blockCost_eq,
        Nat.min_eq_right (bounded i inside leads)]
      exact Nat.zero_add _
    · cases same
    · have kind := plain original (List.mem_of_getElem? here)
      rw [← retarget_isAccounting (relocated body), ← same] at kind
      cases kind
  · intro pc instr found ends
    rcases accounted_getElem? found with ⟨_, _, _, _, rfl⟩ | ⟨_, _, _, _, rfl⟩ | ⟨i, original, here, place, rfl⟩
    · cases ends
    · cases ends
    · have leaves : original.endsBlock = true := by
        cases original <;> first | rfl | cases ends
      have within : i + 1 ≤ body.length := (List.getElem?_eq_some_iff.mp here).1
      rw [place]
      exact landing within fun _ => blockLeads_of_end here leaves

/-- Functions that a table prices: scripts with accounting under it in which no block costs more
than a charge can name. Other functions run no instructions. -/
def Callable.Priced (costs : CostTable) (c : Callable) : Prop :=
  ∀ p, c = .script p → ∃ code, p.code = instrument code costs ∧ Addressable (stripAccounting code) ∧
    ∀ i < (stripAccounting code).length, isLeader (stripAccounting code) i = true →
      blockPrice (stripAccounting code) costs i ≤ costLimit

theorem Callable.Priced.billed {costs : CostTable} {c : Callable} {p : Proto} (priced : c.Priced costs)
    (script : c = .script p) : Billed costs p.code := by
  obtain ⟨code, same, addressable, bounded⟩ := priced p script
  rw [same]
  exact instrument_billed bounded addressable

def World.prepaid (costs : CostTable) (w : World) (f : FunctionId) (pc : Nat) : Nat :=
  match w.proto? f with
  | some p => CoopScript.prepaid costs p.code pc
  | none => 0

/-- What is prepaid for a script when it goes on. -/
def Frame.prepaid (costs : CostTable) (w : World) (frame : Frame) : Nat :=
  match frame.state with
  | some (.script pc _) => w.prepaid costs frame.function pc
  | _ => 0

namespace Activity

/-- The instruction that a script is about to run. -/
def instr? (w : World) : Activity → Option Instr
  | .running f _ pc => (w.proto? f).bind (·.code[pc]?)
  | _ => none

def prepaid (costs : CostTable) (w : World) : Activity → Nat
  | .resume f _ (.script pc _) | .running f _ pc => w.prepaid costs f pc
  | _ => 0

end Activity

def Move.prepaid (costs : CostTable) (w : World) : Move → Nat
  | .go a => a.prepaid costs w
  | .call frame _ _ | .suspend _ frame => frame.prepaid costs w

section Moves

variable {costs : CostTable} {w v : World}

theorem World.prepaid_of_script {f : FunctionId} {p : Proto} (script : w.proto? f = some p) (pc : Nat) :
    w.prepaid costs f pc = CoopScript.prepaid costs p.code pc := by
  simp only [prepaid, script]

theorem World.prepaid_of_code {f : FunctionId} (code : v.proto? f = w.proto? f) (pc : Nat) :
    v.prepaid costs f pc = w.prepaid costs f pc := by
  simp only [prepaid, code]

theorem Frame.prepaid_of_code {frame : Frame} (code : v.proto? frame.function = w.proto? frame.function) :
    frame.prepaid costs v = frame.prepaid costs w := by
  simp only [prepaid, World.prepaid_of_code code]

theorem Frame.activity_prepaid (frame : Frame) : frame.activity.prepaid costs w = frame.prepaid costs w := by
  simp only [activity, prepaid]
  cases frame.state with
  | none => rfl
  | some s => cases s <;> rfl

theorem Move.prepaid_of_code (code : ∀ f, v.proto? f = w.proto? f) (move : Move) :
    move.prepaid costs v = move.prepaid costs w := by
  cases move with
  | go a =>
    cases a with
    | running f w pc => exact World.prepaid_of_code (code f) pc
    | resume f w s => cases s <;> first | rfl | exact World.prepaid_of_code (code f) _
    | _ => rfl
  | call frame r inner => exact Frame.prepaid_of_code (code _)
  | suspend reason frame => exact Frame.prepaid_of_code (code _)

theorem Frame.prepaid_of_other {frame : Frame} (other : w.proto? frame.function = none) : frame.prepaid costs w = 0 := by
  simp only [prepaid, World.prepaid, other]
  split <;> rfl

/-- Nothing is prepaid for a function other than a script. -/
theorem Activation.Leads.prepaid_of_other {call : Activation} {move : Move} (leads : call.Leads w move)
    (other : w.proto? call.function = none) : move.prepaid costs w = 0 := by
  cases leads with
  | returned => rfl
  | running pc => simp only [Move.prepaid, Activity.prepaid, World.prepaid, other]
  | waits r own | suspended reason own =>
    cases own
    exact Frame.prepaid_of_other other

end Moves

namespace Proto

variable {p : Proto} {w : Window} {s : RegisterStack} {instr : Instr}

/-- A script leaves for good only at the end of a block. -/
theorem effect_leave (leaves : (p.effect w s (some instr)).1 = .ok .leave) : instr.endsBlock = true := by
  cases instr with
  | ret _ _ => rfl
  | arith _ _ _ _ | compare _ _ _ _ | concat _ _ _ => cases Effect.eq_of_storing leaves
  | jumpIfNot cond target => rfl
  | call _ _ _ => rfl
  | _ => cases leaves

end Proto

namespace Activity

variable {costs : CostTable} {c d : Core}

/-- A step of an activity adds its charges to what is prepaid and takes the price of what it runs. -/
def Balanced (costs : CostTable) (c : Core) (a : Activity) (move : Move) : Prop :=
  charges (a.instr? c.world).toList + a.prepaid costs c.world =
    costs.total (a.instr? c.world).toList + move.prepaid costs c.world

private theorem balanced_of_silent {a : Activity} {move : Move} (silent : a.instr? c.world = none)
    (same : move.prepaid costs c.world = a.prepaid costs c.world) : a.Balanced costs c move := by
  rw [Balanced, silent, same]
  rfl

section Script

variable {f : FunctionId} {w : Window} {pc : Nat} {p : Proto} (script : c.world.proto? f = some p)
  (billed : Billed costs p.code)
include script billed

/-- A plain instruction is prepaid. If control leaves the order of the code there, nothing else is. -/
private theorem plain_balanced {instr : Instr} (found : p.code[pc]? = some instr) (plain : instr.isAccounting = false)
    {s : RegisterStack} {effect : Effect} (done : (p.effect w s (some instr)).1 = .ok effect) :
    (Activity.running f w pc).Balanced costs c (effect.move f w pc) := by
  have next := prepaid_next costs found (isCharge_of_plain plain)
  have instrs : (Activity.running f w pc).instr? c.world = some instr := by
    simp only [instr?, script, Option.bind_some, found]
  have balanced {move : Move} (rest : move.prepaid costs c.world = CoopScript.prepaid costs p.code (pc + 1)) :
      (Activity.running f w pc).Balanced costs c move := by
    rw [Balanced, instrs, rest]
    simp only [Option.toList_some, charges_cons, charges_nil, Instr.charged_plain plain, CostTable.total_cons,
      CostTable.total_nil, prepaid, World.prepaid_of_script script, next]
    omega
  cases effect with
  | advance => exact balanced (World.prepaid_of_script script _)
  | await pending r callee => exact balanced (World.prepaid_of_script script _)
  | jump target =>
    have jumps : instr.target? = some target := Proto.effect_jump done
    have ends : instr.endsBlock = true := by cases instr <;> first | rfl | cases jumps
    refine balanced ?_
    rw [billed.ends found ends]
    exact (World.prepaid_of_script script _).trans (billed.targets found jumps)
  | leave => exact balanced (billed.ends found (Proto.effect_leave done)).symm

private theorem running_balanced {move : Move} (stepped : ((Activity.running f w pc).step c).1 = .ok move) :
    (Activity.running f w pc).Balanced costs c move := by
  have at_place {instr : Instr} (found : p.code[pc]? = some instr) :
      (Activity.running f w pc).instr? c.world = some instr := by
    simp only [instr?, script, Option.bind_some, found]
  rw [step_running (World.proto?_eq_some.mp script)] at stepped
  rcases p.place_cases pc with plain | ⟨cost, found⟩ | found
  · rw [Proto.step_plain c plain] at stepped
    simp only [Proto.stepOf] at stepped
    cases done : (p.effect w c.context.stack p.code[pc]?).1 with
    | error e =>
      rw [done] at stepped
      cases stepped
    | ok effect =>
      rw [done] at stepped
      cases stepped
      cases found : p.code[pc]? with
      | none =>
        rw [found] at done
        cases Effect.eq_of_after done
        refine balanced_of_silent (by simp only [instr?, script, Option.bind_some, found]) ?_
        exact ((World.prepaid_of_script script _).trans (prepaid_end found)).symm
      | some instr =>
        rw [found] at done
        exact plain_balanced script billed found (plain instr found) done
  · rw [Proto.step_charge c found] at stepped
    cases stepped
    rw [Balanced, at_place found]
    simp only [Move.prepaid, prepaid, World.prepaid_of_script script, prepaid_charge found, billed.charges found]
    exact Nat.add_comm cost 0
  · have next := prepaid_next costs found rfl
    have goes : move.prepaid costs c.world = CoopScript.prepaid costs p.code (pc + 1) := by
      rw [Proto.step_tick c found] at stepped
      split at stepped <;> cases stepped <;> exact World.prepaid_of_script script _
    rw [Balanced, at_place found, goes, prepaid, World.prepaid_of_script script, next]
    exact Nat.zero_add (0 + CoopScript.prepaid costs p.code (pc + 1))

end Script

theorem step_balanced {a : Activity} {move : Move} (working : a ≠ .returned)
    (priced : ∀ f, a.function? = some f → (c.world.callable f).Priced costs) (stepped : (a.step c).1 = .ok move) :
    a.Balanced costs c move := by
  have other (call : Activation) (own : a.activation? = some call) (none : c.world.proto? call.function = none) :
      move.prepaid costs c.world = 0 := (step_leads own stepped).prepaid_of_other none
  cases a with
  | returned => exact absurd rfl working
  | dispatch r w =>
    simp only [step, Core.bind_apply] at stepped
    rcases served : r.serve w c with ⟨_ | a, after⟩ <;> rw [served] at stepped
    · cases stepped
    · cases stepped
      have leads := Request.serve_served (congrArg Prod.fst served)
      cases leads <;> exact balanced_of_silent rfl rfl
  | enter f w =>
    cases script : c.world.proto? f with
    | none => exact balanced_of_silent rfl (other _ rfl script)
    | some p =>
      have callable := World.proto?_eq_some.mp script
      have billed := (priced f rfl).billed callable
      rw [step_enter, callable] at stepped
      simp only [Callable.invoke, Core.bind_apply, Core.getStack_apply] at stepped
      split at stepped
      · cases stepped
        exact balanced_of_silent rfl ((World.prepaid_of_script script _).trans billed.start)
      · cases stepped
  | resume f w s =>
    cases script : c.world.proto? f with
    | none =>
      refine balanced_of_silent rfl ((other _ rfl script).trans ?_)
      cases s <;> first | rfl | simp only [prepaid, World.prepaid, script]
    | some p =>
      rw [step_resume, World.proto?_eq_some.mp script] at stepped
      cases s with
      | script pc pending =>
        simp only [Callable.resume, Core.bind_apply, Core.getStack_apply] at stepped
        split at stepped
        · cases stepped
          exact balanced_of_silent rfl rfl
        · cases stepped
      | _ => cases stepped
  | running f w pc =>
    cases script : c.world.proto? f with
    | none =>
      refine balanced_of_silent (by simp only [instr?, script, Option.bind_none]) ((other _ rfl script).trans ?_)
      simp only [prepaid, World.prepaid, script]
    | some p =>
      exact running_balanced script ((priced f rfl).billed (World.proto?_eq_some.mp script)) stepped

/-- No instruction is run that is not prepaid. -/
theorem total_instr_le (a : Activity) (w : World) :
    costs.total (a.instr? w).toList ≤ charges (a.instr? w).toList + a.prepaid costs w := by
  cases a with
  | running f base pc =>
    cases script : w.proto? f with
    | none => simp [instr?, script]
    | some p =>
      cases found : p.code[pc]? with
      | none => simp [instr?, script, found]
      | some instr =>
        simp only [instr?, prepaid, script, Option.bind_some, found, World.prepaid_of_script script, Option.toList_some,
          CostTable.total_cons, CostTable.total_nil]
        cases kind : instr.isCharge with
        | false =>
          rw [prepaid_next costs found kind]
          omega
        | true =>
          cases instr <;> first | exact Nat.zero_le _ | cases kind
  | _ => exact Nat.zero_le _

end Activity

namespace Machine

variable {costs : CostTable}

/-- What is prepaid for the frames that wait and for the script at work. -/
def prepaid (costs : CostTable) (m : Machine) : Nat :=
  (m.frames.map (Frame.prepaid costs m.core.world)).sum + m.activity.prepaid costs m.core.world

/-- The instructions that are run in the first steps of a run. -/
def instructions (n : Nat) (m : Machine) : List Instr := m.observed (fun m => (m.activity.instr? m.core.world).toList) n

private theorem frames_prepaid {w v : World} (code : ∀ f, v.proto? f = w.proto? f) (frames : List Frame) :
    frames.map (Frame.prepaid costs v) = frames.map (Frame.prepaid costs w) :=
  List.map_congr_left fun frame _ => Frame.prepaid_of_code (code frame.function)

/-- What one step charges and what it runs make up for the change in what is prepaid. -/
theorem step_balanced {m next : Machine}
    (priced : ∀ f, m.activity.function? = some f → (m.core.world.callable f).Priced costs) (moved : m.step = .inl next) :
    charges (m.activity.instr? m.core.world).toList + m.prepaid costs =
      costs.total (m.activity.instr? m.core.world).toList + next.prepaid costs := by
  have code := (step_keeps moved).code
  cases Step.of_step moved with
  | @returned frame callers pending returned waiting fewer able =>
    change _ + m.prepaid costs = _ +
      (((callers ++ pending).map (Frame.prepaid costs m.core.world)).sum + frame.activity.prepaid costs m.core.world)
    rw [prepaid, returned, waiting, Frame.activity_prepaid, List.map_cons, List.sum_cons]
    simp only [Activity.instr?, Activity.prepaid, Option.toList_none, charges_nil, CostTable.total_nil]
    omega
  | @went a d working stepped =>
    have balanced := Activity.step_balanced working priced (congrArg Prod.fst stepped)
    rw [Activity.Balanced, ← Move.prepaid_of_code code] at balanced
    change _ + m.prepaid costs = _ + ((m.frames.map (Frame.prepaid costs d.world)).sum + (Move.go a).prepaid costs d.world)
    change _ = _ + (Move.go a).prepaid costs d.world at balanced
    rw [prepaid, frames_prepaid code]
    omega
  | @called frame r w d working stepped =>
    have balanced := Activity.step_balanced working priced (congrArg Prod.fst stepped)
    rw [Activity.Balanced, ← Move.prepaid_of_code code] at balanced
    change _ + m.prepaid costs = _ + (((frame :: m.frames).map (Frame.prepaid costs d.world)).sum + 0)
    rw [prepaid, List.map_cons, List.sum_cons, frames_prepaid code]
    change _ = _ + frame.prepaid costs d.world at balanced
    omega

/-- Where a run comes to rest without a failure, what is prepaid is saved with the frames. -/
theorem halted_balanced {m last : Machine} {halt : Halt} (ended : ∀ e, halt ≠ .failed e)
    (priced : ∀ f, m.activity.function? = some f → (m.core.world.callable f).Priced costs)
    (halted : m.step = .inr (halt, last)) : charges (m.activity.instr? m.core.world).toList + m.prepaid costs =
      costs.total (m.activity.instr? m.core.world).toList +
        (last.pending.map (Frame.prepaid costs last.core.world)).sum := by
  cases Halted.of_step halted with
  | finished returned none =>
    have pending : m.pending = [] := (List.append_eq_nil_iff.mp none).2
    rw [prepaid, returned, none, pending]
    rfl
  | refused _ _ _ _ e | failed _ _ | stranded _ _ _ => exact absurd rfl (ended _)
  | @paused reason frame core working stepped lines =>
    have balanced := Activity.step_balanced working priced (congrArg Prod.fst stepped)
    have code : ∀ f, core.world.proto? f = m.core.world.proto? f := by
      have kept := (m.activity.step_keeps m.core).code
      rwa [stepped] at kept
    rw [Activity.Balanced, ← Move.prepaid_of_code code] at balanced
    -- the watchers of a suspension log it, which changes no code
    change _ + m.prepaid costs = _ + ((frame :: m.frames).map (Frame.prepaid costs core.world)).sum
    rw [prepaid, List.map_cons, List.sum_cons, frames_prepaid code]
    change _ = _ + frame.prepaid costs core.world at balanced
    omega

private theorem priced_now {m : Machine} {n : Nat} (involved : ∀ c ∈ m.involved (n + 1), c.Priced costs) (f : FunctionId)
    (active : m.activity.function? = some f) : (m.core.world.callable f).Priced costs :=
  involved _ (mem_involved active n)

/-- The charges of a run are the price of what it runs and what it leaves prepaid, beyond what was
prepaid before. -/
theorem run_balanced {m last : Machine} {halt : Halt} {fuel : Nat} (ended : ∀ e, halt ≠ .failed e)
    (involved : ∀ c ∈ m.involved fuel, c.Priced costs) (ran : m.run fuel = some (halt, last)) :
    charges (m.instructions fuel) + m.prepaid costs = costs.total (m.instructions fuel) +
      (last.pending.map (Frame.prepaid costs last.core.world)).sum := by
  induction fuel generalizing m with
  | zero => cases ran
  | succ fuel ih =>
    cases moved : m.step with
    | inl next =>
      rw [run_inl moved] at ran
      have later := ih (fun c member => involved c (mem_observed_later moved member)) ran
      have now := step_balanced (priced_now involved) moved
      rw [instructions, observed_inl moved, charges_append, CostTable.total_append]
      simp only [instructions] at later
      omega
    | inr result =>
      obtain ⟨_, _⟩ := result
      rw [run_inr moved] at ran
      cases ran
      rw [instructions, observed_inr moved]
      exact halted_balanced ended (priced_now involved) moved

/-- At no moment of a run has more been run than was charged for. -/
theorem instructions_paid {m : Machine} {n : Nat} (involved : ∀ c ∈ m.involved n, c.Priced costs) :
    costs.total (m.instructions n) ≤ charges (m.instructions n) + m.prepaid costs := by
  induction n generalizing m with
  | zero => exact Nat.zero_le _
  | succ n ih =>
    cases moved : m.step with
    | inl next =>
      have later := ih fun c member => involved c (mem_observed_later moved member)
      have now := step_balanced (priced_now involved) moved
      rw [instructions, observed_inl moved, charges_append, CostTable.total_append]
      simp only [instructions] at later
      omega
    | inr result =>
      rw [instructions, observed_inr moved]
      refine Nat.le_trans (m.activity.total_instr_le m.core.world) ?_
      exact Nat.add_le_add_left (Nat.le_add_left _ _) _

end Machine

namespace Executor

/-- An executor whose call of a function has been drained so far, with the instructions that were
run. What others do in between leaves the frames and their code alone. -/
inductive Advanced (costs : CostTable) (f : FunctionId) : World → Executor → List Instr → Prop where
  | pushed {w : World} {e pending : Executor} {args : List Value} (pushed : e.pushCall f args = (.ok (), pending)) :
      Advanced costs f w pending []
  | drained {w e ran fuel result v after} (before : Advanced costs f w e ran)
      (involved : ∀ c ∈ (e.machine w).involved fuel, c.Priced costs)
      (drained : drain fuel w e = some (.ok result, v, after)) :
      Advanced costs f v after (ran ++ (e.machine w).instructions fuel)
  | meanwhile {w e ran v other} (before : Advanced costs f w e ran) (frames : other.callStack = e.callStack)
      (code : ∀ frame ∈ e.callStack, v.proto? frame.function = w.proto? frame.function) : Advanced costs f v other ran

variable {costs : CostTable} {f : FunctionId} {w v : World} {e after : Executor} {ran : List Instr} {fuel : Nat}

/-- What a drain charges and what it runs make up for the change in what is prepaid for the frames
that wait. -/
theorem drain_balanced {result : Drain} (involved : ∀ c ∈ (e.machine w).involved fuel, c.Priced costs)
    (drained : drain fuel w e = some (.ok result, v, after)) :
    charges ((e.machine w).instructions fuel) + (e.callStack.map (Frame.prepaid costs w)).sum =
      costs.total ((e.machine w).instructions fuel) + (after.callStack.map (Frame.prepaid costs v)).sum := by
  rcases of_drain drained with ⟨other, _⟩ | ⟨halt, last, rested, rfl, same, rfl⟩
  · cases other
  · have ended (error : Failure) : halt ≠ .failed error := by
      rintro rfl
      cases same
    have left : (e.settled halt last).2.callStack = last.pending := by
      cases halt with
      | finished => exact (Machine.pending_of_finished rested).symm
      | paused reason => rfl
      | failed error => exact absurd rfl (ended error)
    rw [left]
    exact Machine.run_balanced ended involved rested

theorem Advanced.balanced (advanced : Advanced costs f w e ran) :
    charges ran = costs.total ran + (e.callStack.map (Frame.prepaid costs w)).sum := by
  induction advanced with
  | pushed pushed =>
    rw [callStack_of_pushCall pushed]
    rfl
  | drained before involved drained ih =>
    have balanced := drain_balanced involved drained
    rw [charges_append, CostTable.total_append]
    omega
  | @meanwhile w e ran v other before frames code ih =>
    have same : e.callStack.map (Frame.prepaid costs v) = e.callStack.map (Frame.prepaid costs w) :=
      List.map_congr_left fun frame member => Frame.prepaid_of_code (code frame member)
    rw [frames, same]
    exact ih

theorem involved_priced (priced : ∀ f, (w.callable f).Priced costs) {n : Nat} :
    ∀ c ∈ (e.machine w).involved n, c.Priced costs := by
  intro c member p script
  obtain ⟨f, same⟩ := Machine.involved_code member
  refine priced f p (World.proto?_eq_some.mp (same.symm.trans ?_))
  rw [script]
  rfl

/-- Exact accounting: between two drains the charges are the price of what has been run and of the
rest of each block in which a frame waits, so no suspension makes a block be charged again; at no
moment of the next drain has anything been run uncharged; and when the call is finished the charges
are the price of what has been run. -/
theorem charges_exact (advanced : Advanced costs f w e ran) :
    charges ran = costs.total ran + (e.callStack.map (Frame.prepaid costs w)).sum ∧
    (∀ n, (∀ c ∈ (e.machine w).involved n, c.Priced costs) →
      costs.total (ran ++ (e.machine w).instructions n) ≤ charges (ran ++ (e.machine w).instructions n)) ∧
    ∀ fuel v done, (∀ c ∈ (e.machine w).involved fuel, c.Priced costs) →
      drain fuel w e = some (.ok .finished, v, done) →
      charges (ran ++ (e.machine w).instructions fuel) = costs.total (ran ++ (e.machine w).instructions fuel) := by
  have before := advanced.balanced
  refine ⟨before, ?_, ?_⟩
  · intro n involved
    have paid := Machine.instructions_paid involved
    change _ ≤ _ + (e.callStack.map (Frame.prepaid costs w)).sum at paid
    rw [charges_append, CostTable.total_append]
    omega
  · intro fuel v done involved drained
    have finished : done.callStack = [] := by
      rcases of_drain drained with ⟨other, _⟩ | ⟨halt, last, -, -, same, rfl⟩
      · cases other
      · cases halt with
        | finished => rfl
        | paused _ | failed _ => cases same
    have balanced := (advanced.drained involved drained).balanced
    rw [finished] at balanced
    exact balanced

private def looking : Proto where
  name := "looking"
  params := 0
  regs := 2
  constants := [.table ⟨0⟩, .str "key"]
  code := instrument [.loadConst 0 0, .getField 1 0 1, .move 0 1, .ret 0 1] {}

private def handling : Proto where
  name := "handling"
  params := 2
  regs := 2
  constants := [.function ⟨2⟩]
  code := instrument [.loadConst 0 0, .call 0 0 1, .ret 0 1] {}

private def lookingWorld : World where
  tables := #[{ metatable := some ⟨1⟩ }, { entries := [(.str "__index", .function ⟨1⟩)] }]
  functions := #[.script looking, .script handling, .builtin .pause]

private def lookingCall : Executor where
  context := { stack := ⟨#[.nil, .nil, .nil, .nil, .nil, .nil], 0⟩, budget := Budget.new { budget := some 8 } }
  callStack := [⟨⟨0⟩, ⟨0⟩, none⟩]
  state := .paused

private def onward (e : Executor) : Executor :=
  match drain 30 lookingWorld e with
  | some (_, _, after) => after
  | none => e

private theorem looking_priced (f : FunctionId) : (lookingWorld.callable f).Priced {} := by
  have straight {body : List Instr} (none : ∀ instr ∈ body, instr.target? = none) : Addressable body := by
    intro instr member target jumps
    rw [none instr member] at jumps
    cases jumps
  intro p script
  match f with
  | ⟨0⟩ | ⟨1⟩ =>
    cases script
    exact ⟨_, rfl, straight (by decide), by decide⟩
  | ⟨2⟩ => cases script
  | ⟨absent + 3⟩ => cases script

/-- The world is left aside after a drain that is told not to have failed. -/
private theorem looking_advanced {e : Executor} {ran : List Instr} {r : Drain}
    (before : Advanced {} ⟨0⟩ lookingWorld e ran)
    (told : (drain 30 lookingWorld e).bind (·.1.toOption) = some r) :
    Advanced {} ⟨0⟩ lookingWorld (onward e) (ran ++ (e.machine lookingWorld).instructions 30) := by
  obtain ⟨v, after, drained⟩ := drain_of_told told
  have moved : onward e = after := by rw [onward, drained]
  rw [moved]
  refine (before.drained (involved_priced looking_priced) drained).meanwhile rfl ?_
  intro frame _
  exact (drain_code drained frame.function).symm

/-- What the first two drains run. -/
private def lookingRan : List Instr :=
  (lookingCall.machine lookingWorld).instructions 30 ++ ((onward lookingCall).machine lookingWorld).instructions 30

private def lookingLast : List Instr := ((onward (onward lookingCall)).machine lookingWorld).instructions 30

/-- The call is preempted in its handler, which then pauses, while the script that looks a key up
waits in the middle of its only block, two instructions before the end. -/
theorem charges_exact_looking : charges lookingRan = ({} : CostTable).total lookingRan + 2 ∧
    charges (lookingRan ++ lookingLast) = ({} : CostTable).total (lookingRan ++ lookingLast) := by
  have pushed : { lookingCall with callStack := [], state := .idle }.pushCall ⟨0⟩ [] = (.ok (), lookingCall) := rfl
  have preempted : Advanced {} ⟨0⟩ lookingWorld (onward lookingCall) _ :=
    looking_advanced (.pushed pushed) (r := .paused) (by decide +kernel)
  have paused : Advanced {} ⟨0⟩ lookingWorld (onward (onward lookingCall)) lookingRan :=
    looking_advanced preempted (r := .paused) (by decide +kernel)
  obtain ⟨v, done, finished⟩ : ∃ v done, drain 30 lookingWorld (onward (onward lookingCall)) =
      some (.ok .finished, v, done) := drain_of_told (by decide +kernel)
  obtain ⟨between, -, completed⟩ := charges_exact paused
  have waiting : ((onward (onward lookingCall)).callStack.map (Frame.prepaid {} lookingWorld)).sum = 2 := by
    decide +kernel
  rw [waiting] at between
  exact ⟨between, completed 30 v done (involved_priced looking_priced) finished⟩

end Executor

end CoopScript
