import CoopScript.DirectCall
import CoopScript.Proofs.PauseCount

/-! Limits of direct calls. A direct call is drained until it has come to its end or has been paused
once more than it may be, and is then left as it is. So attempts with any limits, each of which goes on
where the one before gave up, cut the drains of a call into pieces and change nothing else about it. -/

namespace CoopScript

namespace Executor

/-- So many drains of a call in turn, all of them paused, with the calls made in them. -/
inductive Partway : World → Executor → Nat → List Call → World → Executor → Prop where
  | none {w e} : Partway w e 0 [] w e
  | paused {w v u e d c fuel n calls} (ran : drain fuel w e = some (.ok .paused, v, d)) (rest : Partway v d n calls u c) :
      Partway w e (n + 1) ((e.machine w).calls fuel ++ calls) u c

variable {w v u last : World} {e d c : Executor} {n k : Nat} {calls made later : List Call}
  {result : Except Failure (List Value)}

theorem Partway.trans (first : Partway w e n made v d) (rest : Partway v d k later u c) :
    Partway w e (n + k) (made ++ later) u c := by
  induction first with
  | none => simpa using rest
  | paused ran _ ih =>
    rw [List.append_assoc, Nat.add_right_comm]
    exact .paused ran (ih rest)

theorem Partway.split (partway : Partway w e (n + k) calls u c) : ∃ made later v d,
    Partway w e n made v d ∧ Partway v d k later u c := by
  induction n generalizing w e calls with
  | zero => exact ⟨[], calls, w, e, .none, by simpa using partway⟩
  | succ n ih =>
    rw [Nat.add_right_comm] at partway
    cases partway with
    | paused ran rest =>
      obtain ⟨made, later, v, d, first, second⟩ := ih rest
      exact ⟨_, later, v, d, .paused ran first, second⟩

/-- A call that has been paused is still pending. -/
theorem Partway.pending (partway : Partway w e n made v d) (pending : e.callStack ≠ []) : d.callStack ≠ [] := by
  induction partway with
  | none => exact pending
  | paused ran _ ih =>
    obtain ⟨reason, last, rested, -, saved⟩ := run_of_paused ran
    exact ih (saved ▸ Machine.run_pending rested)

/-- The drains of a call up to one of its pauses, and those that are left. -/
theorem Drained.partway (drained : Drained w e n calls result last) (within : k ≤ n) : ∃ made later v d,
    Partway w e k made v d ∧ Drained v d (n - k) later result last ∧ calls = made ++ later := by
  induction drained generalizing k with
  | @finished w e _ _ _ ran =>
    obtain rfl := Nat.le_zero.mp within
    exact ⟨[], _, w, e, .none, .finished ran, rfl⟩
  | @failed w e _ _ _ _ ran =>
    obtain rfl := Nat.le_zero.mp within
    exact ⟨[], _, w, e, .none, .failed ran, rfl⟩
  | @paused w e _ _ _ pauses _ _ _ ran rest ih =>
    cases k with
    | zero => exact ⟨[], _, w, e, .none, .paused ran rest, rfl⟩
    | succ k =>
      obtain ⟨made, later, v, d, first, second, rfl⟩ := ih (Nat.le_of_succ_le_succ within)
      refine ⟨_, later, v, d, .paused ran first, ?_, (List.append_assoc _ _ _).symm⟩
      rwa [Nat.succ_sub_succ]

/-- Nothing is pending after a drain that is not paused. -/
theorem callStack_of_ended {fuel : Nat} {ended : Except Failure Drain} (ran : drain fuel w e = some (ended, v, d))
    (other : ended ≠ .ok .paused) : d.callStack = [] := by
  by_cases idle : e.callStack = []
  · rw [drain_of_idle idle] at ran
    cases ran
    exact idle
  · obtain ⟨halt, m, -, -, rfl, rfl⟩ := run_of_drain idle ran
    cases halt with
    | finished | failed _ => rfl
    | paused _ => exact absurd rfl other

theorem takeResults_callStack (e : Executor) : e.takeResults.2.callStack = e.callStack := by
  unfold takeResults
  split <;> rfl

end Executor

namespace DirectCall

open Executor

/-- The outcome of an attempt. -/
abbrev Answer := Except HostError (List Value)

/-- Attempts to go on with a pending call, each with its own limit, and their answers. -/
inductive Attempts : World → Executor → List Nat → List Answer → World → Executor → Prop where
  | none {w e} : Attempts w e [] [] w e
  | next {w v u e d c fuel limit limits answer answers} (resumed : resume fuel limit w e = some (answer, v, d))
      (rest : Attempts v d limits answers u c) : Attempts w e (limit :: limits) (answer :: answers) u c

/-- A call with a limit, and the attempts to go on with it. -/
inductive Tried (w : World) (e : Executor) (f : FunctionId) (args : List Value) :
    List Nat → List Answer → World → Executor → Prop where
  | intro {v u d c fuel limit limits answer answers} (called : call fuel limit w e f args = some (answer, v, d))
      (rest : Attempts v d limits answers u c) : Tried w e f args (limit :: limits) (answer :: answers) u c

/-- The drains that are paused if attempts with these limits all give up. -/
def spent (limits : List Nat) : Nat := (limits.map (· + 1)).sum

/-- The answers of attempts at a call with so many pauses. Once the call has ended no call is pending. -/
def answers (pauses : Nat) (result : Except Failure (List Value)) : List Nat → List Answer
  | [] => []
  | limit :: limits =>
    if limit < pauses then .error (.paused (limit + 1)) :: answers (pauses - (limit + 1)) result limits
    else result.mapError .call :: answers 0 (.error (.protocol .noPendingCall)) limits

theorem spent_cons (limit : Nat) (limits : List Nat) : spent (limit :: limits) = limit + 1 + spent limits := rfl

variable {w v u last : World} {e d c pending : Executor} {n before left limit : Nat} {limits : List Nat}
  {calls made : List Call} {result : Except Failure (List Value)} {answer : Answer} {given : List Answer}

theorem resumeFrom_failed {fuel : Nat} {err : Failure} (ran : drain fuel w e = some (.error err, v, d)) (before left : Nat) :
    resumeFrom fuel before left w e = some (.error (.call err), v, d) := by
  rw [resumeFrom, ran]

theorem resumeFrom_finished {fuel : Nat} (ran : drain fuel w e = some (.ok .finished, v, d)) (before left : Nat) :
    resumeFrom fuel before left w e = some (.ok d.results, v, d.takeResults.2) := by
  rw [resumeFrom, ran]
  rfl

theorem resumeFrom_last {fuel : Nat} (ran : drain fuel w e = some (.ok .paused, v, d)) (before : Nat) :
    resumeFrom fuel before 0 w e = some (.error (.paused (before + 1)), v, d) := by
  rw [resumeFrom, ran]

theorem resumeFrom_paused {fuel : Nat} (ran : drain fuel w e = some (.ok .paused, v, d)) (before left : Nat) :
    resumeFrom fuel before (left + 1) w e = resumeFrom fuel (before + 1) left v d := by
  rw [resumeFrom, ran]

theorem drain_of_resumeFrom {fuel : Nat} (resumed : resumeFrom fuel before left w e = some (answer, v, d)) :
    ∃ drained, drain fuel w e = some drained := by
  cases ran : drain fuel w e with
  | none => simp [resumeFrom, ran] at resumed
  | some drained => exact ⟨drained, rfl⟩

theorem resumeFrom_mono {fuel more : Nat} (resumed : resumeFrom fuel before left w e = some (answer, v, d))
    (enough : fuel ≤ more) : resumeFrom more before left w e = some (answer, v, d) := by
  induction left generalizing before w e with
  | zero =>
    obtain ⟨⟨_ | (_ | _), _, _⟩, ran⟩ := drain_of_resumeFrom resumed
    · rwa [resumeFrom_failed (drain_mono ran enough), ← resumeFrom_failed ran before 0]
    · rwa [resumeFrom_last (drain_mono ran enough), ← resumeFrom_last ran]
    · rwa [resumeFrom_finished (drain_mono ran enough), ← resumeFrom_finished ran before 0]
  | succ left ih =>
    obtain ⟨⟨_ | (_ | _), _, _⟩, ran⟩ := drain_of_resumeFrom resumed
    · rwa [resumeFrom_failed (drain_mono ran enough), ← resumeFrom_failed ran before (left + 1)]
    · rw [resumeFrom_paused ran] at resumed
      rw [resumeFrom_paused (drain_mono ran enough)]
      exact ih resumed
    · rwa [resumeFrom_finished (drain_mono ran enough), ← resumeFrom_finished ran before (left + 1)]

/-- An attempt has one outcome. -/
theorem resume_unique {fuel fuel' : Nat} {outcome outcome' : Answer × World × Executor}
    (resumed : resume fuel limit w e = some outcome) (resumed' : resume fuel' limit w e = some outcome') :
    outcome' = outcome := by
  have first := resumeFrom_mono resumed (Nat.le_max_left fuel fuel')
  have second := resumeFrom_mono resumed' (Nat.le_max_right fuel fuel')
  exact Option.some.inj (second.symm.trans first)

/-- Paused drains that an attempt may wait through are part of it. -/
theorem resumeFrom_partway {fuel : Nat} (partway : Partway w e n made v d)
    (resumed : resumeFrom fuel (before + n) left v d = some (answer, u, c)) :
    ∃ fuel, resumeFrom fuel before (left + n) w e = some (answer, u, c) := by
  induction partway generalizing before fuel with
  | none => exact ⟨fuel, resumed⟩
  | @paused _ _ _ _ _ _ first n _ ran _ ih =>
    rw [Nat.add_comm n, ← Nat.add_assoc] at resumed
    obtain ⟨rest, resumed⟩ := ih resumed
    refine ⟨max first rest, ?_⟩
    rw [← Nat.add_assoc, resumeFrom_paused (drain_mono ran (Nat.le_max_left first rest))]
    exact resumeFrom_mono resumed (Nat.le_max_right first rest)

/-- An attempt gives up after one pause more than its limit, -/
theorem resume_of_partway (partway : Partway w e (limit + 1) made v d) :
    ∃ fuel, resume fuel limit w e = some (.error (.paused (limit + 1)), v, d) := by
  obtain ⟨_, _, _, _, first, final⟩ := partway.split
  cases final with
  | paused ran rest =>
    cases rest
    obtain ⟨fuel, resumed⟩ := resumeFrom_partway first (resumeFrom_last ran (0 + limit))
    simp only [Nat.zero_add] at resumed
    exact ⟨fuel, resumed⟩

/-- and only then. -/
theorem partway_of_resumeFrom {fuel waited : Nat}
    (resumed : resumeFrom fuel before left w e = some (.error (.paused waited), v, d)) :
    waited = before + left + 1 ∧ ∃ made, Partway w e (left + 1) made v d := by
  induction left generalizing before w e with
  | zero =>
    obtain ⟨⟨_ | (_ | _), _, _⟩, ran⟩ := drain_of_resumeFrom resumed
    · cases (resumeFrom_failed ran before 0).symm.trans resumed
    · cases (resumeFrom_last ran before).symm.trans resumed
      exact ⟨rfl, _, .paused ran .none⟩
    · cases (resumeFrom_finished ran before 0).symm.trans resumed
  | succ left ih =>
    obtain ⟨⟨_ | (_ | _), _, _⟩, ran⟩ := drain_of_resumeFrom resumed
    · cases (resumeFrom_failed ran before (left + 1)).symm.trans resumed
    · rw [resumeFrom_paused ran] at resumed
      obtain ⟨rfl, made, rest⟩ := ih resumed
      exact ⟨by omega, _, .paused ran rest⟩
    · cases (resumeFrom_finished ran before (left + 1)).symm.trans resumed

/-- An attempt at a call whose pauses it may all wait through answers as the call does, whatever its limit. -/
theorem resumeFrom_of_drained (drained : Drained w e n calls result last) : ∃ d, d.callStack = [] ∧
    ∀ before left, n ≤ left → ∃ fuel, resumeFrom fuel before left w e = some (result.mapError .call, last, d) := by
  obtain ⟨_, _, v, c, first, final, -⟩ := drained.partway (Nat.le_refl n)
  rw [Nat.sub_self] at final
  have ended : ∃ d, d.callStack = [] ∧ ∃ fuel, ∀ before left,
      resumeFrom fuel before left v c = some (result.mapError .call, last, d) := by
    cases final with
    | failed ran => exact ⟨_, callStack_of_ended ran (by simp), _, resumeFrom_failed ran⟩
    | @finished _ _ _ _ final ran =>
      refine ⟨final.takeResults.2, ?_, _, resumeFrom_finished ran⟩
      rw [takeResults_callStack]
      exact callStack_of_ended ran (by simp)
  obtain ⟨d, idle, fuel, resumed⟩ := ended
  refine ⟨d, idle, fun before left within => ?_⟩
  obtain ⟨left, rfl⟩ := Nat.exists_eq_add_of_le' within
  exact resumeFrom_partway first (resumed (before + n) left)

namespace Attempts

/-- If the attempts after one can only go one way, then so can they all. -/
theorem cons_iff {fuel : Nat} {later : List Answer} (resumed : resume fuel limit w e = some (answer, v, d))
    (onward : ∀ given u c, Attempts v d limits given u c ↔ given = later ∧ u = last ∧ c = pending)
    (given : List Answer) (u : World) (c : Executor) :
    Attempts w e (limit :: limits) given u c ↔ given = answer :: later ∧ u = last ∧ c = pending := by
  constructor
  · rintro (_ | ⟨other, rest⟩)
    cases resume_unique resumed other
    obtain ⟨rfl, rfl, rfl⟩ := (onward _ _ _).mp rest
    exact ⟨rfl, rfl, rfl⟩
  · rintro ⟨rfl, rfl, rfl⟩
    exact .next resumed ((onward _ _ _).mpr ⟨rfl, rfl, rfl⟩)

theorem nil_iff (given : List Answer) (u : World) (c : Executor) :
    Attempts w e [] given u c ↔ given = [] ∧ u = w ∧ c = e := by
  constructor
  · rintro ⟨⟩
    exact ⟨rfl, rfl, rfl⟩
  · rintro ⟨rfl, rfl, rfl⟩
    exact .none

/-- Where no call is pending attempts change nothing. -/
theorem idle_iff (idle : e.callStack = []) (limits : List Nat) (given : List Answer) (u : World) (c : Executor) :
    Attempts w e limits given u c ↔
      given = answers 0 (.error (.protocol .noPendingCall)) limits ∧ u = w ∧ c = e := by
  induction limits generalizing given u c with
  | nil => exact nil_iff given u c
  | cons limit limits ih =>
    have resumed : resume 0 limit w e = _ := resumeFrom_failed (drain_of_idle idle 0 w) 0 limit
    exact cons_iff resumed ih given u c

/-- Attempts that all give up are so many paused drains in turn. -/
theorem give_up_iff : Attempts w e limits (limits.map fun limit => .error (.paused (limit + 1))) u c ↔
    ∃ made, Partway w e (spent limits) made u c := by
  induction limits generalizing w e with
  | nil =>
    constructor
    · rintro ⟨⟩
      exact ⟨[], .none⟩
    · rintro ⟨_, ⟨⟩⟩
      exact .none
  | cons limit limits ih =>
    rw [spent_cons]
    constructor
    · rintro (_ | ⟨resumed, rest⟩)
      obtain ⟨-, made, first⟩ := partway_of_resumeFrom resumed
      obtain ⟨later, second⟩ := ih.mp rest
      exact ⟨_, first.trans second⟩
    · rintro ⟨_, partway⟩
      obtain ⟨_, later, v, d, first, second⟩ := partway.split
      obtain ⟨fuel, resumed⟩ := resume_of_partway first
      exact .next resumed (ih.mpr ⟨later, second⟩)

/-- Attempts at a call that ends have their answers. They leave it at one of the pauses that its drains come to,
or at its end as a single attempt does that never gives up. -/
theorem of_drained (drained : Drained w e n calls result last) (limits : List Nat) : ∃ v d,
    (∀ given u c, Attempts w e limits given u c ↔ given = answers n result limits ∧ u = v ∧ c = d) ∧
    (spent limits ≤ n → ∃ made rest, Partway w e (spent limits) made v d ∧
      Drained v d (n - spent limits) rest result last ∧ calls = made ++ rest) ∧
    (n < spent limits → v = last ∧ d.callStack = [] ∧ ∀ before left, n ≤ left →
      ∃ fuel, resumeFrom fuel before left w e = some (result.mapError .call, last, d)) := by
  induction limits generalizing w e n calls with
  | nil =>
    exact ⟨w, e, nil_iff, fun _ => ⟨[], calls, .none, drained, rfl⟩, fun less => absurd less (Nat.not_lt_zero n)⟩
  | cons limit limits ih =>
    by_cases gives_up : limit < n
    · obtain ⟨made, later, v, d, first, left, rfl⟩ := drained.partway (Nat.succ_le_of_lt gives_up)
      obtain ⟨fuel, resumed⟩ := resume_of_partway first
      obtain ⟨v', d', exactly, within, beyond⟩ := ih left
      rw [answers, if_pos gives_up, spent_cons]
      refine ⟨v', d', cons_iff resumed exactly, fun enough => ?_, fun less => ?_⟩
      · obtain ⟨more, rest, second, onward, rfl⟩ := within (by omega)
        rw [Nat.sub_sub] at onward
        exact ⟨_, rest, first.trans second, onward, (List.append_assoc _ _ _).symm⟩
      · obtain ⟨same, idle, whole⟩ := beyond (by omega)
        refine ⟨same, idle, fun before left enough => ?_⟩
        obtain ⟨rest, rfl⟩ := Nat.exists_eq_add_of_le' (Nat.le_trans (Nat.succ_le_of_lt gives_up) enough)
        obtain ⟨fuel, ended⟩ := whole (before + (limit + 1)) rest (by omega)
        exact resumeFrom_partway first ended
    · obtain ⟨d, idle, whole⟩ := resumeFrom_of_drained drained
      obtain ⟨fuel, resumed⟩ := whole 0 limit (Nat.le_of_not_lt gives_up)
      rw [answers, if_neg gives_up, spent_cons]
      refine ⟨last, d, cons_iff resumed (idle_iff idle limits), fun enough => ?_, fun _ => ⟨rfl, idle, whole⟩⟩
      omega

end Attempts

theorem call_of_pushed {f : FunctionId} {args : List Value} (pushed : e.pushCall f args = (.ok (), pending))
    (fuel limit : Nat) (w : World) : call fuel limit w e f args = resume fuel limit w pending := by
  rw [call, pushed]

theorem tried_iff {f : FunctionId} {args : List Value} (pushed : e.pushCall f args = (.ok (), pending))
    (tried : limits ≠ []) : Tried w e f args limits given u c ↔ Attempts w pending limits given u c := by
  constructor
  · rintro ⟨called, rest⟩
    rw [call_of_pushed pushed] at called
    exact .next called rest
  · rintro (_ | ⟨resumed, rest⟩)
    · exact absurd rfl tried
    · rw [← call_of_pushed pushed] at resumed
      exact .intro resumed rest

/-- Limits only divide a call. Attempts all give up as long as its drains are paused, and leave it after as many
drains as they have waited for. If the call ends, their answers depend on nothing but its result and the number
of its pauses: the calls that are made are the same, the call is left paused exactly where some of them, or none,
are left to wait for, and otherwise as one attempt leaves it that waits for all of them. -/
theorem limits_divide {f : FunctionId} {args : List Value} (pushed : e.pushCall f args = (.ok (), pending))
    {limits : List Nat} (tried : limits ≠ []) :
    (∀ u c, Tried w e f args limits (limits.map fun limit => .error (.paused (limit + 1))) u c ↔
      ∃ made, Partway w pending (spent limits) made u c) ∧
    ∀ n calls result last, Drained w pending n calls result last → ∃ v d,
      (∀ given u c, Tried w e f args limits given u c ↔ given = answers n result limits ∧ u = v ∧ c = d) ∧
      d.isPaused = decide (spent limits ≤ n) ∧
      (spent limits ≤ n → ∃ made rest, Partway w pending (spent limits) made v d ∧
        Drained v d (n - spent limits) rest result last ∧ calls = made ++ rest) ∧
      (n < spent limits → v = last ∧
        ∀ limit, n ≤ limit → ∃ fuel, call fuel limit w e f args = some (result.mapError .call, last, d)) := by
  simp only [tried_iff pushed tried, call_of_pushed pushed]
  refine ⟨fun u c => Attempts.give_up_iff, fun n calls result last drained => ?_⟩
  obtain ⟨v, d, exactly, within, beyond⟩ := Attempts.of_drained drained limits
  refine ⟨v, d, exactly, ?_, within, fun less => ?_⟩
  · by_cases enough : spent limits ≤ n
    · obtain ⟨_, _, partway, -⟩ := within enough
      have waiting := partway.pending (by simp [callStack_of_pushCall pushed])
      simp [isPaused, waiting, enough]
    · obtain ⟨-, idle, -⟩ := beyond (Nat.lt_of_not_le enough)
      simp [isPaused, idle, enough]
  · obtain ⟨same, -, whole⟩ := beyond less
    exact ⟨same, fun limit enough => whole 0 limit enough⟩

private def dozing : World := { functions := #[.host (.waits "doze" .yield 2)] }

private def vacant : Executor := { context := { stack := ⟨#[.nil, .nil], 0⟩, budget := Budget.new {} } }

private def dozingCall : Executor := (vacant.pushCall ⟨0⟩ [.int 7]).2

/-- The call where it has been paused. -/
private def dozed (left : Int64) : Executor :=
  { dozingCall with callStack := [⟨⟨0⟩, ⟨0⟩, some (.count left)⟩], lastReason := some .yield }

theorem limits_divide_doze : ∃ v d, d.isPaused = false ∧ Tried dozing vacant ⟨0⟩ [.int 7] [0, 5, 1]
    [.error (.paused 1), .ok [.int 7], .error (.call (.protocol .noPendingCall))] v d := by
  have pushed : vacant.pushCall ⟨0⟩ [.int 7] = (.ok (), dozingCall) := by cbv
  have first : drain 3 dozing dozingCall = some (.ok .paused, dozing, dozed 1) := by cbv
  have second : drain 3 dozing (dozed 1) = some (.ok .paused, dozing, dozed 0) := by cbv
  have third : drain 3 dozing (dozed 0) = some (.ok .finished, dozing,
      { dozed 0 with callStack := [], state := .finished }) := by cbv
  have drained := Drained.paused first (.paused second (.finished third))
  have several : [0, 5, 1] ≠ [] := by simp
  obtain ⟨-, whole⟩ := limits_divide pushed several
  obtain ⟨v, d, exactly, paused, -⟩ := whole _ _ _ _ drained
  exact ⟨v, d, paused, (exactly _ v d).mpr ⟨rfl, rfl, rfl⟩⟩

end DirectCall

end CoopScript
