import CoopScript.Proofs.BlockCredit
import CoopScript.Proofs.NativeCalls

/-! Drains are bounded. What is left of the budget, at a whole code for every unit, and the credit
of every frame that waits make up a potential. Each plain instruction takes one from it, a charge
turns budget into credit, and nothing adds to it; steps that run no instruction cannot go on for
long either. So a drain comes to rest, and runs no more instructions than it started with. -/

namespace CoopScript

/-- What can be taken from the budget before it is spent. -/
def Budget.left (b : Budget) : Nat := (b.remaining - b.lowWaterMark - 1).toNat

theorem Budget.left_charge {b : Budget} {cost : Nat} (enabled : b.isEnabled = true)
    (least : Budget.least ≤ b.lowWaterMark) (costs : 1 ≤ cost) (unspent : (b.charge cost).isExhausted = false) :
    (b.charge cost).left + 1 ≤ b.left := by
  have charged : b.charge cost = { b with remaining := max (b.remaining - cost) Budget.least } := by
    rw [charge, if_pos enabled]
  rw [charged] at unspent ⊢
  have above : ¬ max (b.remaining - cost) Budget.least ≤ b.lowWaterMark := by
    simpa [isExhausted, isEnabled, show b.slice.isSome = true from enabled] using unspent
  simp only [left]
  omega

theorem Budget.left_spent {b : Budget} (spent : b.isExhausted = true) : b.left = 0 := by
  simp only [isExhausted, Bool.and_eq_true, decide_eq_true_eq] at spent
  simp only [left]
  omega

/-- Functions whose work is paid for: scripts with accounting in which every instruction costs
something, native functions, and pauses. Jump targets are words of 32 bits. -/
def Callable.Metered (limit : Nat) (c : Callable) : Prop :=
  (∃ p code costs, c = .script p ∧ p.code = instrument code costs ∧ (∀ category, 1 ≤ costs.cost category) ∧
    p.code.length < UInt32.size ∧ p.code.length ≤ limit) ∨
  c = .builtin .pause ∨ c.Native ∧ c.isResumable = false

namespace World

def credit (w : World) (limit : Nat) (f : FunctionId) (pc : Nat) : Nat :=
  match w.proto? f with
  | some p => min limit (CoopScript.credit p.code pc)
  | none => 0

end World

def Frame.credit (limit : Nat) (w : World) (frame : Frame) : Nat :=
  match frame.state with
  | some (.script pc _) => w.credit limit frame.function pc
  | _ => 0

namespace Activity

def Spent (c : Core) (f : FunctionId) (pc : Nat) : Prop :=
  (c.world.proto? f).bind (·.code[pc]?) = some .tick ∧ c.context.budget.isExhausted = true

instance (c : Core) (f : FunctionId) (pc : Nat) : Decidable (Spent c f pc) :=
  inferInstanceAs (Decidable (_ ∧ _))

/-- The credit of what is being done. A script that is about to be preempted has none. -/
def credit (limit : Nat) (c : Core) : Activity → Nat
  | .resume f _ (.script pc _) => c.world.credit limit f pc
  | .running f _ pc => if Spent c f pc then 0 else c.world.credit limit f pc
  | _ => 0

def plain (c : Core) : Activity → List Instr
  | .running f _ pc => (((c.world.proto? f).bind (·.code[pc]?)).filter (!·.isAccounting)).toList
  | _ => []

/-- How many steps can follow before a frame is taken up or a plain instruction is run. -/
def idle (c : Core) : Activity → Nat
  | .returned => 0
  | .running f _ pc =>
    match (c.world.proto? f).bind (·.code[pc]?) with
    | some (.charge _) => 3
    | some .tick => 2
    | _ => 1
  | .enter _ _ | .resume _ _ _ => 4
  | .dispatch (.text _) _ => 6
  | .dispatch _ _ => 5

end Activity

def Move.credit (limit : Nat) (c : Core) : Move → Nat
  | .go a => a.credit limit c
  | .call frame _ _ => frame.credit limit c.world
  | .suspend _ _ => 0

def Move.idle (c : Core) : Move → Nat
  | .go a => a.idle c
  | .call _ r w => 5 + (Activity.dispatch r w).idle c
  | .suspend _ _ => 0

namespace Activity

variable {limit : Nat} {c d : Core}

theorem running_credit_le (limit : Nat) (c : Core) (f : FunctionId) (w : Window) (pc : Nat) :
    (Activity.running f w pc).credit limit c ≤ c.world.credit limit f pc := by
  simp only [credit]
  split
  · exact Nat.zero_le _
  · exact Nat.le_refl _

theorem running_idle_le (c : Core) (f : FunctionId) (w : Window) (pc : Nat) : (Activity.running f w pc).idle c ≤ 3 := by
  simp only [idle]
  split <;> omega

theorem dispatch_idle (c : Core) (r : Request) (w : Window) :
    5 ≤ (Activity.dispatch r w).idle c ∧ (Activity.dispatch r w).idle c ≤ 6 := by
  cases r <;> simp [idle]

/-- What a step of an activity comes to: the plain instruction it runs is taken from budget and
credit, other steps bring the next frame or instruction nearer, and only scripts wait. -/
structure Spends (limit : Nat) (c : Core) (a : Activity) (move : Move) (d : Core) : Prop where
  potential : limit * d.context.budget.left + move.credit limit d + (a.plain c).length ≤
    limit * c.context.budget.left + a.credit limit c
  idle : move.idle d < a.idle c + 12 * (a.plain c).length
  waits : ∀ frame r w, move = .call frame r w → (d.world.proto? frame.function).isSome
  resumes : ∀ f w s, move ≠ .go (.resume f w s)

/-- A step that only goes on to something without more credit. -/
private theorem spends_go {a b : Activity} (budget : d.context.budget = c.context.budget)
    (less : b.credit limit d ≤ a.credit limit c) (sooner : b.idle d < a.idle c) (silent : a.plain c = [])
    (resumes : ∀ f w s, b ≠ .resume f w s) : a.Spends limit c (.go b) d := by
  refine ⟨?_, ?_, by simp, by simpa using resumes⟩
  · rw [budget, silent, List.length_nil, Nat.add_zero]
    exact Nat.add_le_add_left less _
  · rw [silent]
    exact sooner

theorem dispatch_spends {r : Request} {w : Window} {move : Move}
    (stepped : (Activity.dispatch r w).step c = (.ok move, d)) : (Activity.dispatch r w).Spends limit c move d := by
  simp only [step, Core.bind_apply] at stepped
  have budget := r.serve_thrifty w c
  rcases served : r.serve w c with ⟨_ | a, after⟩ <;> rw [served] at stepped budget
  · cases stepped
  · cases stepped
    have leads := Request.serve_served (congrArg Prod.fst served)
    refine spends_go budget ?_ ?_ rfl (by cases leads <;> simp)
    · cases leads <;> exact Nat.zero_le _
    · have long := dispatch_idle c r w
      cases leads with
      | returned => exact Nat.lt_of_lt_of_le (by decide : 0 < 5) long.1
      | call f => exact Nat.lt_of_lt_of_le (by decide : 4 < 5) long.1
      | handler v handler asked =>
        subst asked
        exact Nat.lt_succ_self 5

private theorem spends_running {a : Activity} {f : FunctionId} {w : Window} {pc : Nat}
    (budget : d.context.budget = c.context.budget) (less : d.world.credit limit f pc ≤ a.credit limit c)
    (later : 3 < a.idle c) (silent : a.plain c = []) : a.Spends limit c (.go (.running f w pc)) d :=
  spends_go budget (Nat.le_trans (running_credit_le limit d f w pc) less)
    (Nat.lt_of_le_of_lt (running_idle_le d f w pc) later) silent (by simp)

theorem enter_spends {f : FunctionId} {w : Window} {move : Move} (metered : (c.world.callable f).Metered limit)
    (stepped : (Activity.enter f w).step c = (.ok move, d)) (goes : ∀ reason frame, move ≠ .suspend reason frame) :
    (Activity.enter f w).Spends limit c move d := by
  rw [step_enter] at stepped
  rcases metered with ⟨p, code, costs, script, instrumented, positive, short, _⟩ | pause | ⟨native, _⟩
  · rw [script] at stepped
    simp only [Callable.invoke, Core.bind_apply, Core.getStack_apply] at stepped
    have kept := Core.Conservative.of_local (p.enter_local w) c
    have budget := Core.Thrifty.of_local (p.enter_local w) c
    rcases entered : p.enter w c with ⟨_ | _, after⟩ <;> rw [entered] at stepped kept budget
    · cases stepped
    · cases stepped
      refine spends_running budget ?_ (Nat.lt_succ_self 3) rfl
      have paid : PaidFor p.code := instrumented ▸ instrument_paidFor positive (instrumented ▸ short)
      rw [World.credit, kept.code, World.proto?_eq_some.mpr script]
      simp only [paid.start, Nat.min_zero]
      exact Nat.zero_le _
  · rw [pause] at stepped
    cases stepped
    exact absurd rfl (goes _ _)
  · have budget := native.invoke_thrifty f w c
    rw [stepped] at budget
    cases native.invoke_returned f w (congrArg Prod.fst stepped)
    exact spends_go budget (Nat.zero_le _) (Nat.zero_lt_succ 3) rfl (by simp)

theorem resume_spends {f : FunctionId} {w : Window} {s : Saved} {move : Move}
    (metered : (c.world.callable f).Metered limit) (resumable : (c.world.callable f).isResumable = true)
    (stepped : (Activity.resume f w s).step c = (.ok move, d)) : (Activity.resume f w s).Spends limit c move d := by
  rw [step_resume] at stepped
  rcases metered with ⟨p, _, _, script, _⟩ | pause | ⟨_, firm⟩
  · rw [script] at stepped
    cases s with
    | script pc pending =>
      simp only [Callable.resume, Core.bind_apply, Core.getStack_apply] at stepped
      have kept := Core.Conservative.of_local (p.resume_local w pending) c
      have budget := Core.Thrifty.of_local (p.resume_local w pending) c
      rcases resumed : p.resume w pending c with ⟨_ | _, after⟩ <;> rw [resumed] at stepped kept budget
      · cases stepped
      · cases stepped
        refine spends_running budget ?_ (Nat.lt_succ_self 3) rfl
        simp only [World.credit, kept.code, credit]
        exact Nat.le_refl _
    | _ => cases stepped
  · rw [pause] at stepped
    cases s with
    | arguments values =>
      have immediate : (Action.ret values).Immediate := .inr ⟨values, rfl⟩
      have performed : (Action.ret values).perform f w c = (.ok move, d) := stepped
      have budget := Core.Thrifty.of_local (immediate.perform_local (f := f) (w := w)) c
      rw [performed] at budget
      cases immediate.perform_returned (congrArg Prod.fst performed)
      exact spends_go budget (Nat.zero_le _) (Nat.zero_lt_succ 3) rfl (by simp)
    | _ => cases stepped
  · rw [firm] at resumable
    cases resumable

section Running

variable {f : FunctionId} {w : Window} {pc : Nat} {p : Proto} (script : c.world.proto? f = some p)
include script

private theorem credit_script (short : p.code.length ≤ limit) (i : Nat) :
    c.world.credit limit f i = CoopScript.credit p.code i := by
  simp only [World.credit, script]
  exact Nat.min_eq_right (Nat.le_trans (credit_le p.code i) short)

private theorem running_credit (short : p.code.length ≤ limit) (other : p.code[pc]? ≠ some .tick) :
    (Activity.running f w pc).credit limit c = CoopScript.credit p.code pc := by
  have free : ¬ Spent c f pc := by
    rintro ⟨tick, _⟩
    simp only [script, Option.bind_some] at tick
    exact other tick
  rw [credit, if_neg free, credit_script script short]

private theorem running_plain {instr : Instr} (found : p.code[pc]? = some instr) (kind : instr.isAccounting = false) :
    (Activity.running f w pc).plain c = [instr] := by
  simp [plain, script, found, Option.filter, kind]

private theorem running_accounting {instr : Instr} (found : p.code[pc]? = some instr)
    (kind : instr.isAccounting = true) : (Activity.running f w pc).plain c = [] := by
  simp [plain, script, found, Option.filter, kind]

/-- A plain instruction takes one from the credit of its script, wherever it leads. -/
private theorem plain_spends (paid : PaidFor p.code) (short : p.code.length ≤ limit) {instr : Instr}
    (found : p.code[pc]? = some instr) (kind : instr.isAccounting = false) {s : RegisterStack} {effect : Effect}
    (done : (p.effect w s (some instr)).1 = .ok effect) (world : d.world = c.world)
    (budget : d.context.budget = c.context.budget) :
    (Activity.running f w pc).Spends limit c (effect.move f w pc) d := by
  have run : ((Activity.running f w pc).plain c).length = 1 := congrArg List.length (running_plain script found kind)
  have one : (Activity.running f w pc).idle c = 1 := by
    simp only [idle, script, Option.bind_some, found]
    cases instr <;> first | rfl | cases kind
  have credited := running_credit (w := w) script short (by
    rw [found]
    rintro ⟨⟩
    cases kind)
  have paying := credit_plain found kind
  have spends {move : Move} (less : move.credit limit d + 1 ≤ CoopScript.credit p.code pc) (near : move.idle d < 13)
      (waits : ∀ frame r w, move = .call frame r w → (d.world.proto? frame.function).isSome)
      (resumes : ∀ f w s, move ≠ .go (.resume f w s)) : (Activity.running f w pc).Spends limit c move d := by
    refine ⟨?_, ?_, waits, resumes⟩
    · rw [run, credited, budget, Nat.add_assoc]
      exact Nat.add_le_add_left less _
    · rw [run, one]
      exact near
  have running (i : Nat) (less : CoopScript.credit p.code i + 1 ≤ CoopScript.credit p.code pc) :
      (Activity.running f w pc).Spends limit c (.go (.running f w i)) d := by
    refine spends ?_ (Nat.lt_of_le_of_lt (running_idle_le d f w i) (by decide)) (by simp) (by simp)
    refine Nat.le_trans (Nat.add_le_add_right (running_credit_le limit d f w i) 1) ?_
    rwa [world, credit_script script short]
  cases effect with
  | advance => exact running (pc + 1) (Nat.le_of_eq paying)
  | jump target =>
    have landed := paid.targets found (Proto.effect_jump done)
    exact running target (by omega)
  | await pending r callee =>
    refine spends ?_ ?_ ?_ (by simp [Effect.move])
    · change d.world.credit limit f (pc + 1) + 1 ≤ _
      rw [world, credit_script script short]
      exact Nat.le_of_eq paying
    · exact Nat.lt_of_le_of_lt (Nat.add_le_add_left (dispatch_idle d r callee).2 5) (by decide)
    · rintro frame _ _ ⟨⟩
      exact Option.isSome_iff_exists.mpr ⟨p, world ▸ script⟩
  | leave =>
    refine spends ?_ (by decide : 0 < 13) (by simp [Effect.move]) (by simp [Effect.move])
    change 0 + 1 ≤ _
    omega

private theorem end_spends (beyond : p.code[pc]? = none) (budget : d.context.budget = c.context.budget) :
    (Activity.running f w pc).Spends limit c (.go .returned) d := by
  refine spends_go budget (Nat.zero_le _) ?_ ?_ (by simp)
  · simp [idle, script, beyond]
  · simp [Activity.plain, script, beyond]

/-- A charge turns budget into credit, if it does not spend the budget. -/
private theorem charge_spends (paid : PaidFor p.code) (short : p.code.length ≤ limit) {cost : Nat}
    (found : p.code[pc]? = some (.charge cost)) (enabled : c.context.budget.isEnabled = true)
    (least : Budget.least ≤ c.context.budget.lowWaterMark) :
    (Activity.running f w pc).Spends limit c (.go (.running f w (pc + 1)))
      (c.withBudget (c.context.budget.charge cost)) := by
  obtain ⟨costs, tick⟩ := paid.charges found
  have silent := running_accounting (w := w) script found rfl
  refine ⟨?_, ?_, by simp, by simp⟩
  · rw [silent, List.length_nil, Nat.add_zero, running_credit script short (by simp [found]), credit_charge found,
      Nat.add_zero]
    change limit * (c.context.budget.charge cost).left + (Activity.running f w (pc + 1)).credit limit _ ≤ _
    cases spent : (c.context.budget.charge cost).isExhausted with
    | true =>
      have none : Spent (c.withBudget (c.context.budget.charge cost)) f (pc + 1) := by
        refine ⟨?_, spent⟩
        simp only [Core.withBudget_world, script, Option.bind_some, tick]
      rw [Budget.left_spent spent, credit, if_pos none]
      exact Nat.zero_le _
    | false =>
      have fewer := Budget.left_charge enabled least costs spent
      have bounded : (Activity.running f w (pc + 1)).credit limit (c.withBudget (c.context.budget.charge cost)) ≤ limit :=
        Nat.le_trans (running_credit_le _ _ _ _ _) (by
          rw [Core.withBudget_world, credit_script script short]
          exact Nat.le_trans (credit_le _ _) short)
      calc limit * (c.context.budget.charge cost).left + _
          ≤ limit * (c.context.budget.charge cost).left + limit := Nat.add_le_add_left bounded _
        _ = limit * ((c.context.budget.charge cost).left + 1) := by rw [Nat.mul_succ]
        _ ≤ limit * c.context.budget.left := Nat.mul_le_mul_left limit fewer
  · simp only [silent, Move.idle, idle, Core.withBudget_world, script, Option.bind_some, found, tick]
    decide

private theorem tick_spends (paid : PaidFor p.code) (short : p.code.length ≤ limit) (found : p.code[pc]? = some .tick)
    (unspent : c.context.budget.isExhausted = false) :
    (Activity.running f w pc).Spends limit c (.go (.running f w (pc + 1))) c := by
  refine spends_go rfl ?_ ?_ ?_ (by simp)
  · have free : ¬ Spent c f pc := by
      rintro ⟨_, spent⟩
      rw [unspent] at spent
      cases spent
    refine Nat.le_trans (running_credit_le limit c f w (pc + 1)) (Nat.le_of_eq ?_)
    rw [credit, if_neg free, credit_script script short, credit_script script short, credit_tick found]
  · simp only [idle, script, Option.bind_some, found]
    cases next : p.code[pc + 1]? with
    | none => decide
    | some instr =>
      have kind := paid.ticks found next
      cases instr <;> first | exact Nat.lt_succ_self 1 | cases kind
  · exact running_accounting script found rfl

end Running

private theorem nothing_spends {f : FunctionId} {w : Window} {pc : Nat} {move : Move} (other : c.world.proto? f = none)
    (stepped : (Activity.running f w pc).step c = (.ok move, d)) : (Activity.running f w pc).Spends limit c move d := by
  have leaves : (Activity.running f w pc).step c = (.ok (.go .returned), c) := by
    simp only [step, Core.bind_apply, Core.getWorld_apply]
    cases found : c.world.callable f with
    | script p => cases other.symm.trans (World.proto?_eq_some.mpr found)
    | _ => rfl
  cases stepped.symm.trans leaves
  refine spends_go rfl (Nat.zero_le _) ?_ ?_ (by simp)
  · simp [idle, other]
  · simp [plain, other]

theorem running_spends {f : FunctionId} {w : Window} {pc : Nat} {move : Move}
    (metered : (c.world.callable f).Metered limit) (enabled : c.context.budget.isEnabled = true)
    (least : Budget.least ≤ c.context.budget.lowWaterMark)
    (stepped : (Activity.running f w pc).step c = (.ok move, d)) (goes : ∀ reason frame, move ≠ .suspend reason frame) :
    (Activity.running f w pc).Spends limit c move d := by
  rcases metered with ⟨p, code, costs, callable, instrumented, positive, bounded, short⟩ | pause | ⟨native, _⟩
  · have script := World.proto?_eq_some.mpr callable
    have paid : PaidFor p.code := instrumented ▸ instrument_paidFor positive (instrumented ▸ bounded)
    rw [step_running callable] at stepped
    rcases p.place_cases pc with plain | ⟨cost, found⟩ | found
    · rw [Proto.step_plain c plain] at stepped
      obtain ⟨moved, rfl⟩ := Prod.mk.inj stepped
      cases done : (p.effect w c.context.stack p.code[pc]?).1 with
      | error e =>
        rw [done] at moved
        cases moved
      | ok effect =>
        rw [done] at moved
        cases moved
        cases found : p.code[pc]? with
        | none =>
          rw [found] at done
          cases Effect.eq_of_after done
          exact end_spends script found rfl
        | some instr =>
          rw [found] at done
          exact plain_spends script paid short found (plain instr found) done rfl rfl
    · rw [Proto.step_charge c found] at stepped
      cases stepped
      exact charge_spends script paid short found enabled least
    · rw [Proto.step_tick c found] at stepped
      cases spent : c.context.budget.isExhausted with
      | true =>
        rw [spent, if_pos rfl] at stepped
        cases stepped
        exact absurd rfl (goes _ _)
      | false =>
        rw [spent, if_neg (by simp)] at stepped
        cases stepped
        exact tick_spends script paid short found spent
  · exact nothing_spends (by simp only [World.proto?, pause, Callable.proto?]) stepped
  · refine nothing_spends ?_ stepped
    unfold World.proto?
    cases callable : c.world.callable f with
    | script p =>
      rw [callable] at native
      cases native
    | _ => rfl

theorem step_spends {a : Activity} {move : Move}
    (metered : ∀ f, a.function? = some f → (c.world.callable f).Metered limit)
    (resumes : ∀ f w s, a = .resume f w s → (c.world.callable f).isResumable = true)
    (enabled : c.context.budget.isEnabled = true) (least : Budget.least ≤ c.context.budget.lowWaterMark)
    (working : a ≠ .returned) (stepped : a.step c = (.ok move, d)) (goes : ∀ reason frame, move ≠ .suspend reason frame) :
    a.Spends limit c move d := by
  cases a with
  | returned => exact absurd rfl working
  | dispatch r w => exact dispatch_spends stepped
  | enter f w => exact enter_spends (metered f rfl) stepped goes
  | resume f w s => exact resume_spends (metered f rfl) (resumes f w s rfl) stepped
  | running f w pc => exact running_spends (metered f rfl) enabled least stepped goes

/-- An instruction is only run with credit, whatever comes of it. -/
theorem plain_le_credit (a : Activity) (metered : ∀ f, a.function? = some f → (c.world.callable f).Metered limit) :
    (a.plain c).length ≤ a.credit limit c := by
  cases a with
  | running f w pc =>
    cases script : c.world.proto? f with
    | none => simp [plain, script]
    | some p =>
      have short : p.code.length ≤ limit := by
        have callable := World.proto?_eq_some.mp script
        rcases metered f rfl with ⟨q, _, _, same, _, _, _, short⟩ | pause | ⟨native, _⟩
        · cases callable.symm.trans same
          exact short
        · cases callable.symm.trans pause
        · rw [callable] at native
          cases native
      cases found : p.code[pc]? with
      | none => simp [plain, script, found]
      | some instr =>
        cases kind : instr.isAccounting with
        | true =>
          rw [running_accounting script found kind]
          exact Nat.zero_le _
        | false =>
          have credited := running_credit (w := w) script short (by
            rw [found]
            rintro ⟨⟩
            cases kind)
          have paying := credit_plain found kind
          rw [credited, ← paying, running_plain script found kind]
          exact Nat.succ_le_succ (Nat.zero_le _)
  | _ => exact Nat.zero_le _

end Activity

namespace Frame

theorem activity_credit (limit : Nat) (frame : Frame) (c : Core) :
    frame.activity.credit limit c = frame.credit limit c.world := by
  simp only [activity, credit]
  cases frame.state with
  | none => rfl
  | some s => cases s <;> rfl

theorem activity_idle (frame : Frame) (c : Core) : frame.activity.idle c = 4 := by
  simp only [activity]
  cases frame.state <;> rfl

theorem credit_le (limit : Nat) (w : World) (frame : Frame) : frame.credit limit w ≤ limit := by
  simp only [credit]
  split
  · simp only [World.credit]
    split
    · exact Nat.min_le_left _ _
    · exact Nat.zero_le _
  · exact Nat.zero_le _

theorem credit_of_code {w v : World} (code : ∀ f, v.proto? f = w.proto? f) (limit : Nat) (frame : Frame) :
    frame.credit limit v = frame.credit limit w := by
  simp only [credit, World.credit, code]

end Frame

namespace Machine

def potential (limit : Nat) (m : Machine) : Nat :=
  limit * m.core.context.budget.left + (m.frames.map (Frame.credit limit m.core.world)).sum +
    m.activity.credit limit m.core

/-- How many plain instructions are run in the first steps of a run. -/
def executed (n : Nat) (m : Machine) : Nat := (m.observed (fun m => m.activity.plain m.core) n).length

/-- How many more steps there can be without a plain instruction. -/
def idle (m : Machine) : Nat := 5 * m.frames.length + m.activity.idle m.core

/-- In a drain of metered functions scripts are the callers, and what goes on can do so. -/
structure Orderly (m : Machine) : Prop where
  callers : ∀ frame ∈ m.callers, (m.core.world.proto? frame.function).isSome
  resumes : ∀ f w s, m.activity = .resume f w s → (m.core.world.callable f).isResumable = true

/-- What one step takes from the potential and from the steps without an instruction. -/
structure Spends (limit : Nat) (m next : Machine) : Prop where
  potential : next.potential limit + (m.activity.plain m.core).length ≤ m.potential limit
  idle : next.idle < m.idle + 12 * (m.activity.plain m.core).length
  orderly : next.Orderly

/-- Taking up a frame moves its credit to the activity. -/
theorem taken_spends {limit : Nat} {m : Machine} {frame : Frame} {callers pending : List Frame} (orderly : m.Orderly)
    (returned : m.activity = .returned) (waiting : m.frames = frame :: (callers ++ pending))
    (fewer : callers ⊆ m.callers)
    (able : frame ∈ m.callers ∨ frame.state = none ∨ (m.core.world.callable frame.function).isResumable = true) :
    Spends limit m { m with activity := frame.activity, callers, pending } := by
  refine ⟨?_, ?_, ?_, ?_⟩
  · rw [Machine.potential, Machine.potential, returned, waiting, Frame.activity_credit, List.map_cons, List.sum_cons]
    change limit * m.core.context.budget.left + ((callers ++ pending).map (Frame.credit limit m.core.world)).sum +
      frame.credit limit m.core.world + 0 ≤ _ + _ + 0
    omega
  · rw [Machine.idle, Machine.idle, returned, waiting, Frame.activity_idle, List.length_cons]
    change 5 * (callers ++ pending).length + 4 < _ + 0 + 0
    omega
  · intro other member
    exact orderly.callers other (fewer member)
  · intro f w s resume
    change frame.activity = .resume f w s at resume
    rw [Frame.activity] at resume
    cases state : frame.state with
    | none =>
      rw [state] at resume
      cases resume
    | some saved =>
      rw [state] at resume
      cases resume
      rcases able with member | fresh | able
      · exact World.isResumable_of_proto? (orderly.callers frame member)
      · cases fresh.symm.trans state
      · exact able

theorem step_spends {limit : Nat} {m next : Machine} (orderly : m.Orderly)
    (metered : ∀ f, m.activity.function? = some f → (m.core.world.callable f).Metered limit)
    (enabled : m.core.context.budget.isEnabled = true) (least : Budget.least ≤ m.core.context.budget.lowWaterMark)
    (moved : m.step = .inl next) : Spends limit m next := by
  have kept := step_keeps moved
  have frames : m.frames.map (Frame.credit limit next.core.world) = m.frames.map (Frame.credit limit m.core.world) :=
    List.map_congr_left fun frame _ => frame.credit_of_code kept.code limit
  have callers (frame : Frame) (member : frame ∈ m.callers) : (next.core.world.proto? frame.function).isSome := by
    rw [kept.code]
    exact orderly.callers frame member
  cases Step.of_step moved with
  | returned returned waiting fewer able => exact taken_spends orderly returned waiting fewer able
  | @went a d working stepped =>
    obtain ⟨potential, idle, _, resumes⟩ :=
      Activity.step_spends metered orderly.resumes enabled least working stepped (by simp)
    refine ⟨?_, ?_, callers, ?_⟩
    · change limit * d.context.budget.left + (m.frames.map (Frame.credit limit d.world)).sum + a.credit limit d + _ ≤ _
      rw [frames, Machine.potential]
      simp only [Move.credit] at potential
      omega
    · change 5 * m.frames.length + a.idle d < _
      rw [Machine.idle]
      simp only [Move.idle] at idle
      omega
    · intro f w s same
      exact absurd (congrArg Move.go same) (resumes f w s)
  | @called frame r w d working stepped =>
    obtain ⟨potential, idle, waits, _⟩ :=
      Activity.step_spends metered orderly.resumes enabled least working stepped (by simp)
    refine ⟨?_, ?_, ?_, by simp⟩
    · change limit * d.context.budget.left + ((frame :: m.frames).map (Frame.credit limit d.world)).sum + 0 + _ ≤ _
      rw [List.map_cons, List.sum_cons, frames, Machine.potential]
      simp only [Move.credit] at potential
      omega
    · change 5 * (m.frames.length + 1) + (Activity.dispatch r w).idle d < _
      rw [Machine.idle]
      simp only [Move.idle] at idle
      omega
    · intro other member
      rcases List.mem_cons.mp member with rfl | member
      · exact waits _ r w rfl
      · exact callers other member

/-- A run executes no more plain instructions than its potential, and it comes to rest. -/
theorem bounded {limit : Nat} {m : Machine} (orderly : m.Orderly) (enabled : m.core.context.budget.isEnabled = true)
    (least : Budget.least ≤ m.core.context.budget.lowWaterMark) (metered : ∀ n, ∀ c ∈ m.involved n, c.Metered limit) :
    (∀ n, m.executed n ≤ m.potential limit) ∧ ∃ fuel, (m.run fuel).isSome := by
  -- every step takes from the potential, or else from the steps without an instruction
  induction size : 12 * m.potential limit + m.idle using Nat.strongRecOn generalizing m with
  | ind size ih =>
    have now (f : FunctionId) (active : m.activity.function? = some f) : (m.core.world.callable f).Metered limit :=
      metered 1 _ (mem_involved active 0)
    cases moved : m.step with
    | inl next =>
      obtain ⟨potential, idle, orderly'⟩ := step_spends orderly now enabled least moved
      have kept := step_keeps moved
      have later := ih (12 * next.potential limit + next.idle) (by omega) orderly'
        (by rw [Budget.isEnabled, kept.slice]; exact enabled) (kept.mark ▸ least)
        (fun k c seen => metered (k + 1) c (mem_observed_later moved seen)) rfl
      obtain ⟨fewer, fuel, ran⟩ := later
      refine ⟨fun n => ?_, fuel + 1, by rw [run_inl moved]; exact ran⟩
      cases n with
      | zero => exact Nat.zero_le _
      | succ n =>
        have rest := fewer n
        rw [executed] at rest ⊢
        rw [observed_inl moved, List.length_append]
        omega
    | inr result =>
      refine ⟨fun n => ?_, 1, by rw [run_inr moved]; rfl⟩
      cases n with
      | zero => exact Nat.zero_le _
      | succ n =>
        rw [executed, observed_inr moved, potential]
        exact Nat.le_trans (m.activity.plain_le_credit now) (Nat.le_add_left _ _)

end Machine

namespace Executor

/-- A drain of metered functions comes to rest, and it runs no more plain instructions than a
whole code for each unit of the budget above the mark and for each frame that was pending. -/
theorem drain_bounded {w : World} {e : Executor} {b limit : Nat} (slice : e.context.budget.slice = some b)
    (least : Budget.least ≤ e.context.budget.lowWaterMark)
    (metered : ∀ n, ∀ c ∈ (e.machine w).involved n, c.Metered limit) :
    (∀ n, (e.machine w).executed n ≤
      limit * ((min (b : Int) Budget.most - e.context.budget.lowWaterMark - 1).toNat + e.callStack.length)) ∧
    ∃ fuel, (drain fuel w e).isSome := by
  have frames : ((e.machine w).frames.map (Frame.credit limit w)).sum ≤ limit * e.callStack.length := by
    change (e.callStack.map (Frame.credit limit w)).sum ≤ _
    induction e.callStack with
    | nil => exact Nat.zero_le _
    | cons frame rest ih =>
      have first := frame.credit_le limit w
      rw [List.map_cons, List.sum_cons, List.length_cons, Nat.mul_succ]
      omega
  have left : (e.machine w).core.context.budget.left =
      (min (b : Int) Budget.most - e.context.budget.lowWaterMark - 1).toNat := by
    simp only [machine, Budget.left, Budget.refill, slice]
  have orderly : (e.machine w).Orderly := ⟨by simp [machine], by simp [machine]⟩
  have enabled : (e.machine w).core.context.budget.isEnabled = true := by
    simp only [machine, Budget.refill, Budget.isEnabled, slice, Option.isSome_some]
  obtain ⟨fewer, fuel, ran⟩ := Machine.bounded orderly enabled least metered
  refine ⟨fun n => Nat.le_trans (fewer n) ?_, fuel, ?_⟩
  · rw [Machine.potential, left, Nat.mul_add]
    exact Nat.add_le_add_left frames _
  · simp only [drain]
    split
    · rfl
    · obtain ⟨result, rested⟩ := Option.isSome_iff_exists.mp ran
      rw [rested]
      rfl

private def spinning : Proto where
  name := "spinning"
  params := 0
  regs := 0
  constants := []
  code := instrument [.jump 0] {}

private def spinningWorld : World := { functions := #[.script spinning] }

private def spinningCall : Executor where
  context := { stack := ⟨#[.nil], 0⟩, budget := Budget.new { budget := some 3 } }
  callStack := [⟨⟨0⟩, ⟨0⟩, none⟩]
  state := .paused

private theorem spinning_metered (n : Nat) (c : Callable) (seen : c ∈ (spinningCall.machine spinningWorld).involved n) :
    c.Metered 3 := by
  have ran : ((spinningCall.machine spinningWorld).run 15).isSome = true := by decide +kernel
  have among := Machine.observed_run ran n seen
  have involved : (spinningCall.machine spinningWorld).involved 15 = List.replicate 9 (.script spinning) := by cbv
  change c ∈ (spinningCall.machine spinningWorld).involved 15 at among
  rw [involved] at among
  obtain ⟨_, rfl⟩ := List.mem_replicate.mp among
  refine .inl ⟨spinning, [.jump 0], {}, rfl, rfl, fun category => ?_, by decide, by decide⟩
  cases category <;> decide

theorem drain_bounded_spinning :
    (∀ n, (spinningCall.machine spinningWorld).executed n ≤ 3 * ((min 3 Budget.most - 0 - 1).toNat + 1)) ∧
      ∃ fuel, (drain fuel spinningWorld spinningCall).isSome :=
  drain_bounded (b := 3) rfl (by decide) spinning_metered

end Executor

end CoopScript
