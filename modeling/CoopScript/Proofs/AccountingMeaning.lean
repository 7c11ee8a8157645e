import CoopScript.Proofs.AccountingLayout
import CoopScript.Proofs.FixedParts

/-! The accounting pass preserves meaning. Without a budget accounting does nothing, so two
scripts that differ in it alone go through the same plain instructions, from places with as many
of them behind. The run of one follows the run of the other, each waiting for the other to pass
its own accounting, and both make the same calls. -/

namespace CoopScript

namespace Proto

/-- Scripts that differ in their accounting only. Jump targets are words of 32 bits. -/
structure SamePlain (p q : Proto) : Prop where
  name : q.name = p.name
  params : q.params = p.params
  regs : q.regs = p.regs
  constants : q.constants = p.constants
  body : stripAccounting q.code = stripAccounting p.code
  short : p.code.length < UInt32.size
  short' : q.code.length < UInt32.size

namespace SamePlain

variable {p q : Proto}

theorem symm (same : p.SamePlain q) : q.SamePlain p :=
  ⟨same.name.symm, same.params.symm, same.regs.symm, same.constants.symm, same.body.symm, same.short', same.short⟩

theorem enter_eq (same : p.SamePlain q) (w : Window) : q.enter w = p.enter w := by
  simp only [enter, same.params, same.regs]

theorem resume_eq (same : p.SamePlain q) (w : Window) (pending : Option Pending) : q.resume w pending = p.resume w pending := by
  cases pending with
  | none => simp only [resume, same.regs]
  | some pending => cases pending <;> simp only [resume, finish, scratch, same.regs]

theorem effect_eq (same : p.SamePlain q) (w : Window) (s : RegisterStack) (found : Option Instr) :
    q.effect w s found = p.effect w s found := by
  cases found with
  | none => rfl
  | some instr => cases instr <;> simp only [effect, scratch, constant, same.regs, same.constants]

end SamePlain

end Proto

/-- Effects that lead two codes to places with the same plain instructions behind. -/
inductive Effect.Alike (code other : List Instr) : Effect → Effect → Prop where
  | same (effect : Effect) (stays : ∀ target, effect ≠ .jump target) : Alike code other effect effect
  | jump {target target' : Nat} (behind : plainBefore other target' = plainBefore code target) :
      Alike code other (.jump target) (.jump target')

namespace Proto

variable {p q : Proto} {pc pc' : Nat}

/-- Places in two codes with the same plain instruction, or both at the end. -/
structure Ready (p q : Proto) (pc pc' : Nat) : Prop where
  behind : plainBefore q.code pc' = plainBefore p.code pc
  plain : ∀ instr, p.code[pc]? = some instr → instr.isAccounting = false
  plain' : ∀ instr, q.code[pc']? = some instr → instr.isAccounting = false

private theorem plainBefore_lt {code : List Instr} (short : code.length < UInt32.size) (i : Nat) :
    plainBefore code i % UInt32.size = plainBefore code i :=
  Nat.mod_eq_of_lt (Nat.lt_of_le_of_lt (plainBefore_le code i) short)

theorem Ready.instr (ready : Ready p q pc pc') (same : p.SamePlain q) :
    (p.code[pc]? = none ∧ q.code[pc']? = none) ∨
    ∃ instr other, p.code[pc]? = some instr ∧ q.code[pc']? = some other ∧
      other.retarget (plainBefore q.code) = instr.retarget (plainBefore p.code) := by
  cases here : p.code[pc]? with
  | none =>
    cases there : q.code[pc']? with
    | none => exact .inl ⟨rfl, rfl⟩
    | some other =>
      have found := stripAccounting_getElem? there (ready.plain' other there)
      rw [ready.behind, same.body, plainBefore_end here, List.getElem?_eq_none (Nat.le_refl _)] at found
      cases found
  | some instr =>
    have found := stripAccounting_getElem? here (ready.plain instr here)
    cases there : q.code[pc']? with
    | none =>
      rw [← ready.behind, ← same.body, plainBefore_end there, List.getElem?_eq_none (Nat.le_refl _)] at found
      cases found
    | some other =>
      have found' := stripAccounting_getElem? there (ready.plain' other there)
      rw [ready.behind, same.body, found] at found'
      exact .inr ⟨instr, other, rfl, rfl, (Option.some.inj found').symm⟩

private theorem eq_of_retarget {f g : Nat → Nat} {instr other : Instr} (straight : instr.target? = none)
    (same : other.retarget g = instr.retarget f) : other = instr := by
  cases instr <;> cases other <;> first | exact same | cases same | cases straight

/-- There the two do the same to the registers, and go on alike. -/
theorem Ready.effect (ready : Ready p q pc pc') (same : p.SamePlain q) (w : Window) (s : RegisterStack) :
    (q.effect w s q.code[pc']?).2 = (p.effect w s p.code[pc]?).2 ∧
    ((∃ e, (p.effect w s p.code[pc]?).1 = .error e ∧ (q.effect w s q.code[pc']?).1 = .error e) ∨
      ∃ effect other, (p.effect w s p.code[pc]?).1 = .ok effect ∧ (q.effect w s q.code[pc']?).1 = .ok other ∧
        Effect.Alike p.code q.code effect other) := by
  have equal (found : Option Instr) (straight : found.bind Instr.target? = none) :
      (∃ e, (p.effect w s found).1 = .error e ∧ (p.effect w s found).1 = .error e) ∨
      ∃ effect other, (p.effect w s found).1 = .ok effect ∧ (p.effect w s found).1 = .ok other ∧
        Effect.Alike p.code q.code effect other := by
    cases done : (p.effect w s found).1 with
    | error e => exact .inl ⟨e, rfl, rfl⟩
    | ok effect =>
      refine .inr ⟨effect, effect, rfl, rfl, .same effect ?_⟩
      rintro target rfl
      rw [effect_jump done] at straight
      cases straight
  rcases ready.instr same with ⟨here, there⟩ | ⟨instr, other, here, there, retargeted⟩
  · rw [here, there, same.effect_eq]
    exact ⟨rfl, equal none rfl⟩
  · rw [here, there, same.effect_eq]
    have behind {target target' : Nat}
        (moved : plainBefore q.code target' % UInt32.size = plainBefore p.code target % UInt32.size) :
        plainBefore q.code target' = plainBefore p.code target := by
      rwa [plainBefore_lt same.short, plainBefore_lt same.short'] at moved
    cases instr with
    | jump target =>
      cases other <;> simp only [Instr.retarget, reduceCtorEq, Instr.jump.injEq] at retargeted
      exact ⟨rfl, .inr ⟨_, _, rfl, rfl, .jump (behind retargeted)⟩⟩
    | jumpIfNot cond target =>
      cases other <;> simp only [Instr.retarget, reduceCtorEq, Instr.jumpIfNot.injEq] at retargeted
      obtain ⟨rfl, moved⟩ := retargeted
      refine ⟨rfl, .inr ⟨_, _, rfl, rfl, ?_⟩⟩
      split
      · exact .same _ (by simp)
      · exact .jump (behind moved)
    | _ =>
      cases eq_of_retarget rfl retargeted
      exact ⟨rfl, equal _ rfl⟩

end Proto

/-- Places in two scripts that differ in their accounting, with the same plain instructions behind. -/
structure World.SamePoint (w : World) (f : FunctionId) (pc : Nat) (g : FunctionId) (pc' : Nat) : Prop where
  scripts : ∃ p q, w.proto? f = some p ∧ w.proto? g = some q ∧ p.SamePlain q ∧
    plainBefore q.code pc' = plainBefore p.code pc

namespace World.SamePoint

variable {w : World} {f g : FunctionId} {pc pc' : Nat}

theorem symm (point : w.SamePoint f pc g pc') : w.SamePoint g pc' f pc := by
  obtain ⟨p, q, here, there, same, behind⟩ := point
  exact ⟨q, p, there, here, same.symm, behind.symm⟩

theorem of_code {v : World} (point : w.SamePoint f pc g pc') (code : ∀ f, v.proto? f = w.proto? f) :
    v.SamePoint f pc g pc' := by
  obtain ⟨p, q, here, there, same, behind⟩ := point
  exact ⟨p, q, (code f).trans here, (code g).trans there, same, behind⟩

end World.SamePoint

/-- Activities at the same point. -/
inductive Activity.Alike (w : World) : Activity → Activity → Prop where
  | same (a : Activity) : Alike w a a
  | running {f g : FunctionId} {pc pc' : Nat} (point : w.SamePoint f pc g pc') (base : Window) :
      Alike w (.running f base pc) (.running g base pc')
  | resume {f g : FunctionId} {pc pc' : Nat} (point : w.SamePoint f pc g pc') (base : Window)
      (pending : Option Pending) : Alike w (.resume f base (.script pc pending)) (.resume g base (.script pc' pending))

theorem Activity.Alike.symm {w : World} {a b : Activity} (alike : Activity.Alike w a b) : Activity.Alike w b a := by
  cases alike with
  | same => exact .same _
  | running point base => exact .running point.symm base
  | resume point base pending => exact .resume point.symm base pending

inductive Frame.Alike (w : World) : Frame → Frame → Prop where
  | same (frame : Frame) : Alike w frame frame
  | script {f g : FunctionId} {pc pc' : Nat} (point : w.SamePoint f pc g pc') (base : Window)
      (pending : Option Pending) : Alike w ⟨f, base, some (.script pc pending)⟩ ⟨g, base, some (.script pc' pending)⟩

namespace Frame.Alike

variable {w : World} {a b : Frame}

theorem symm (alike : Alike w a b) : Alike w b a := by
  cases alike with
  | same => exact .same _
  | script point base pending => exact .script point.symm base pending

theorem of_code {v : World} (alike : Alike w a b) (code : ∀ f, v.proto? f = w.proto? f) : Alike v a b := by
  cases alike with
  | same => exact .same _
  | script point base pending => exact .script (point.of_code code) base pending

theorem activity (alike : Alike w a b) : a.activity.Alike w b.activity := by
  cases alike with
  | same => exact .same _
  | script point base pending => exact .resume point base pending

theorem watcher? (alike : Alike w a b) : b.watcher? w = a.watcher? w := by
  cases alike with
  | same => rfl
  | script point base pending =>
    obtain ⟨p, q, here, there, _⟩ := point
    simp only [Frame.watcher?, World.proto?_eq_some.mp here, World.proto?_eq_some.mp there]

theorem describe (alike : Alike w a b) : b.describe w = a.describe w := by
  cases alike with
  | same => rfl
  | script point base pending =>
    obtain ⟨p, q, here, there, same, _⟩ := point
    simp only [Frame.describe, World.functionName, World.proto?_eq_some.mp here, World.proto?_eq_some.mp there,
      Callable.name, same.name]

end Frame.Alike

namespace Machine

/-- Machines at the same point of runs without a budget. -/
structure Alike (m n : Machine) : Prop where
  core : n.core = m.core
  unmetered : m.core.context.budget.slice = none
  activity : m.activity.Alike m.core.world n.activity
  callers : m.callers.Forall₂ (Frame.Alike m.core.world) n.callers
  pending : m.pending.Forall₂ (Frame.Alike m.core.world) n.pending

/-- Steps to the same point, or halts of the same kind from which both go on alike. -/
inductive Follow : Machine ⊕ (Halt × Machine) → Machine ⊕ (Halt × Machine) → Prop where
  | moved {m n} (alike : Alike m n) : Follow (.inl m) (.inl n)
  | paused {m n reason} (alike : Alike m.restarted n.restarted) :
      Follow (.inr (.paused reason, m)) (.inr (.paused reason, n))
  | ended {m n halt} (ended : ∀ reason, halt ≠ .paused reason) (core : n.core = m.core) :
      Follow (.inr (halt, m)) (.inr (halt, n))

namespace Follow

variable {m n : Machine} {halt : Halt}

theorem next {after : Machine} (follow : Follow m.step n.step) (moved : m.step = .inl after) :
    ∃ after', n.step = .inl after' ∧ Alike after after' := by
  rw [moved] at follow
  generalize n.step = result at follow
  cases follow with
  | moved alike => exact ⟨_, rfl, alike⟩

theorem pause {reason : SuspendReason} {last : Machine} (follow : Follow m.step n.step)
    (halted : m.step = .inr (.paused reason, last)) :
    ∃ last', n.step = .inr (.paused reason, last') ∧ Alike last.restarted last'.restarted := by
  rw [halted] at follow
  generalize n.step = result at follow
  cases follow with
  | paused alike => exact ⟨_, rfl, alike⟩
  | ended ended => exact absurd rfl (ended reason)

theorem stop {last : Machine} (follow : Follow m.step n.step) (halted : m.step = .inr (halt, last))
    (unpaused : ∀ reason, halt ≠ .paused reason) : ∃ last', n.step = .inr (halt, last') ∧ last'.core = last.core := by
  rw [halted] at follow
  generalize n.step = result at follow
  cases follow with
  | paused => exact absurd rfl (unpaused _)
  | ended _ core => exact ⟨_, rfl, core⟩

end Follow

private theorem frames_symm {w : World} {frames others : List Frame} (alike : frames.Forall₂ (Frame.Alike w) others) :
    others.Forall₂ (Frame.Alike w) frames := by
  induction alike with
  | nil => exact .nil
  | cons first _ ih => exact .cons first.symm ih

private theorem frames_of_code {w v : World} {frames others : List Frame} (alike : frames.Forall₂ (Frame.Alike w) others)
    (code : ∀ f, v.proto? f = w.proto? f) : frames.Forall₂ (Frame.Alike v) others := by
  induction alike with
  | nil => exact .nil
  | cons first _ ih => exact .cons (first.of_code code) ih

private theorem frames_map {α : Type} {w : World} {frames others : List Frame} (look : Frame → α)
    (same : ∀ a b, Frame.Alike w a b → look b = look a) (alike : frames.Forall₂ (Frame.Alike w) others) :
    others.map look = frames.map look := by
  induction alike with
  | nil => rfl
  | cons first _ ih => rw [List.map_cons, List.map_cons, same _ _ first, ih]

theorem Alike.symm {m n : Machine} (alike : Alike m n) : Alike n m := by
  refine ⟨alike.core.symm, by rw [alike.core, alike.unmetered], ?_, ?_, ?_⟩ <;> rw [alike.core]
  · exact alike.activity.symm
  · exact frames_symm alike.callers
  · exact frames_symm alike.pending

theorem Alike.call {m n : Machine} (alike : Alike m n) : n.call = m.call := by
  have activity := alike.activity
  simp only [Machine.call, alike.core]
  generalize m.activity = a at activity
  generalize n.activity = b at activity
  cases activity <;> rfl

/-- What watchers log depends on names and offsets only. -/
theorem failureLines_eq {m n : Machine} (world : n.core.world = m.core.world)
    (callers : m.callers.Forall₂ (Frame.Alike m.core.world) n.callers) (e : Failure) :
    n.failureLines e = m.failureLines e := by
  have watchers := frames_map (fun frame => frame.watcher? m.core.world) (fun _ _ => Frame.Alike.watcher?) callers
  have lines (m : Machine) : m.failureLines e =
      (m.callers.map fun frame => frame.watcher? m.core.world).filterMap
        fun watcher => watcher.map fun watcher => watcher.failed e.message := by
    rw [List.filterMap_map]
    rfl
  rw [lines, lines, world, watchers]

theorem suspensionLines_eq {m n : Machine} (core : n.core = m.core)
    (callers : m.callers.Forall₂ (Frame.Alike m.core.world) n.callers) (reason : SuspendReason) {frame other : Frame}
    (alike : Frame.Alike m.core.world frame other) :
    n.suspensionLines reason other = m.suspensionLines reason frame := by
  have watchers := frames_map (fun frame => frame.watcher? m.core.world) (fun _ _ => Frame.Alike.watcher?) callers
  have texts := frames_map (fun frame => frame.describe m.core.world) (fun _ _ => Frame.Alike.describe)
    (List.Forall₂.cons alike callers)
  have lines (m : Machine) (frame : Frame) : m.suspensionLines reason frame =
      (m.callers.map fun frame => frame.watcher? m.core.world).zipIdx.filterMap fun (watcher, i) =>
        watcher.map fun watcher => watcher.suspended
          { reason
            draining := m.core.context.draining
            frames := ((frame :: m.callers).map fun f => f.describe m.core.world).take (i + 2) } := by
    rw [List.zipIdx_map, List.filterMap_map]
    simp only [suspensionLines, List.map_take]
    rfl
  rw [lines, lines, core, watchers, texts]

inductive Outcome (w : World) : Except Failure Move → Except Failure Move → Prop where
  | failed (e : Failure) : Outcome w (.error e) (.error e)
  | go {a b : Activity} (alike : a.Alike w b) : Outcome w (.ok (.go a)) (.ok (.go b))
  | call {frame other : Frame} (alike : Frame.Alike w frame other) (r : Request) (base : Window) :
      Outcome w (.ok (.call frame r base)) (.ok (.call other r base))
  | suspend {frame other : Frame} (alike : Frame.Alike w frame other) (reason : SuspendReason) :
      Outcome w (.ok (.suspend reason frame)) (.ok (.suspend reason other))

theorem Outcome.refl (w : World) (result : Except Failure Move) : Outcome w result result := by
  rcases result with e | (a | ⟨frame, r, base⟩ | ⟨reason, frame⟩)
  · exact .failed e
  · exact .go (.same a)
  · exact .call (.same frame) r base
  · exact .suspend (.same frame) reason

theorem fail_follow {m n : Machine} (core : n.core = m.core)
    (callers : m.callers.Forall₂ (Frame.Alike m.core.world) n.callers) (e : Failure) :
    Follow (.inr (m.fail e)) (.inr (n.fail e)) := by
  have lines := failureLines_eq (congrArg Core.world core) callers e
  refine .ended (by simp) ?_
  simp only [log, lines, core]

theorem suspend_follow {m n : Machine} (core : n.core = m.core) (unmetered : m.core.context.budget.slice = none)
    (callers : m.callers.Forall₂ (Frame.Alike m.core.world) n.callers)
    (pending : m.pending.Forall₂ (Frame.Alike m.core.world) n.pending) (reason : SuspendReason) {frame other : Frame}
    (alike : Frame.Alike m.core.world frame other) :
    Follow (.inr (m.suspend reason frame)) (.inr (n.suspend reason other)) := by
  have lines := suspensionLines_eq core callers reason alike
  simp only [suspend, core]
  split
  · refine .paused ⟨?_, unmetered, .same _, .nil, ?_⟩
    · simp only [restarted, log, lines, core]
    · have waiting := List.rel_append (List.Forall₂.cons alike callers) pending
      exact frames_of_code waiting fun _ => rfl
  · exact fail_follow core callers _

theorem after_follow {m n : Machine} (callers : m.callers.Forall₂ (Frame.Alike m.core.world) n.callers)
    (pending : m.pending.Forall₂ (Frame.Alike m.core.world) n.pending) {c : Core} (kept : m.core.Keeps c)
    (unmetered : m.core.context.budget.slice = none) {result other : Except Failure Move}
    (outcome : Outcome c.world result other) : Follow (m.after (result, c)) (n.after (other, c)) := by
  have waiting := frames_of_code callers kept.code
  have saved := frames_of_code pending kept.code
  have free : c.context.budget.slice = none := kept.slice.trans unmetered
  cases outcome with
  | failed e => exact fail_follow (m := { m with core := c }) (n := { n with core := c }) rfl waiting e
  | go alike => exact .moved ⟨rfl, free, alike, waiting, saved⟩
  | call alike r base => exact .moved ⟨rfl, free, .same _, .cons alike waiting, saved⟩
  | suspend alike reason =>
    exact suspend_follow (m := { m with core := c }) (n := { n with core := c }) rfl free waiting saved reason alike

theorem step_accounting {m : Machine} (unmetered : m.core.context.budget.slice = none) {f : FunctionId} {base : Window}
    {pc : Nat} (running : m.activity = .running f base pc) {p : Proto} (script : m.core.world.proto? f = some p)
    {instr : Instr} (found : p.code[pc]? = some instr) (accounting : instr.isAccounting = true) :
    m.step = .inl { m with activity := .running f base (pc + 1) } ∧ m.call = [] := by
  refine ⟨?_, by simp only [call, running]⟩
  rw [step_working running (by simp), Activity.step_running (World.proto?_eq_some.mp script),
    Proto.step_unmetered _ unmetered, found, Proto.effect_accounting accounting]
  rfl

/-- A script passes its accounting until it is at a plain instruction or at the end. -/
theorem reaches_plain {m : Machine} (unmetered : m.core.context.budget.slice = none) {f : FunctionId} {base : Window}
    {pc : Nat} (running : m.activity = .running f base pc) {p : Proto} (script : m.core.world.proto? f = some p) :
    ∃ stop, plainBefore p.code stop = plainBefore p.code pc ∧
      (∀ instr, p.code[stop]? = some instr → instr.isAccounting = false) ∧
      m.Reaches 0 [] { m with activity := .running f base stop } := by
  -- the code that is left shrinks with every instruction passed
  induction left : p.code.length - pc generalizing m pc with
  | zero =>
    have beyond : p.code[pc]? = none := List.getElem?_eq_none (Nat.le_of_sub_eq_zero left)
    refine ⟨pc, rfl, by simp [beyond], ?_⟩
    rw [← running]
    exact .here
  | succ left' ih =>
    have inside : pc < p.code.length := by omega
    have found : p.code[pc]? = some p.code[pc] := List.getElem?_eq_getElem inside
    cases accounting : p.code[pc].isAccounting with
    | false =>
      refine ⟨pc, rfl, ?_, ?_⟩
      · rw [found]
        rintro instr ⟨⟩
        exact accounting
      · rw [← running]
        exact .here
    | true =>
      obtain ⟨moved, silent⟩ := step_accounting unmetered running script found accounting
      obtain ⟨stop, behind, plain, reaches⟩ := ih (m := { m with activity := .running f base (pc + 1) }) unmetered rfl
        script (by omega)
      refine ⟨stop, behind.trans (plainBefore_accounting found accounting), plain, ?_⟩
      have whole := Reaches.next moved reaches
      rwa [silent] at whole

namespace Alike

variable {m n : Machine}

theorem returned_follow (alike : Alike m n) (returned : m.activity = .returned) (returned' : n.activity = .returned) :
    Follow m.step n.step := by
  obtain ⟨core, activity, callers, pending⟩ := m
  obtain ⟨core', activity', callers', pending'⟩ := n
  obtain ⟨rfl, unmetered, _, waiting, saved⟩ := alike
  simp only at returned returned'
  subst returned returned'
  cases waiting with
  | cons first waiting => exact .moved ⟨rfl, unmetered, first.activity, waiting, saved⟩
  | nil =>
    cases saved with
    | nil => exact .ended (by simp) rfl
    | @cons _ _ rest rest' first saved =>
      simp only [step]
      cases first with
      | same =>
        split
        · exact fail_follow (m := { core := core', pending := _ :: rest }) (n := { core := core', pending := _ :: rest' })
            rfl .nil _
        · exact .moved ⟨rfl, unmetered, .same _, .nil, saved⟩
      | script point base pending =>
        obtain ⟨p, q, here, there, _⟩ := id point
        simp only [World.proto?_eq_some.mp here, World.proto?_eq_some.mp there, Callable.isResumable, Bool.not_true,
          Bool.and_false, Bool.false_eq_true, if_false]
        exact .moved ⟨rfl, unmetered, .resume point base pending, .nil, saved⟩

theorem same_follow (alike : Alike m n) (same : n.activity = m.activity) : Follow m.step n.step := by
  by_cases returned : m.activity = .returned
  · exact alike.returned_follow returned (same.trans returned)
  · rw [step_working rfl returned, step_working same returned, alike.core]
    exact after_follow alike.callers alike.pending (m.activity.step_keeps m.core) alike.unmetered (.refl _ _)

theorem resume_follow (alike : Alike m n) {f g : FunctionId} {pc pc' : Nat} {base : Window} {pending : Option Pending}
    (point : m.core.world.SamePoint f pc g pc') (here : m.activity = .resume f base (.script pc pending))
    (there : n.activity = .resume g base (.script pc' pending)) : Follow m.step n.step := by
  obtain ⟨p, q, script, script', same, behind⟩ := id point
  have stepped (h : FunctionId) (r : Proto) (i : Nat) (found : m.core.world.proto? h = some r)
      (equal : r.resume base pending = p.resume base pending) :
      (Activity.resume h base (.script i pending)).step m.core =
        ((p.resume base pending m.core).1.map fun _ => .go (.running h base i), (p.resume base pending m.core).2) := by
    rw [Activity.step_resume, World.proto?_eq_some.mp found]
    simp only [Callable.resume, Core.bind_apply, Core.getStack_apply, equal]
    rcases p.resume base pending m.core with ⟨_ | _, _⟩ <;> rfl
  have kept : m.core.Keeps (p.resume base pending m.core).2 := Core.Conservative.of_local (p.resume_local base pending) _
  rw [step_working here (by simp), step_working there (by simp), alike.core,
    stepped f p pc script rfl, stepped g q pc' script' (same.resume_eq base pending)]
  refine after_follow alike.callers alike.pending kept alike.unmetered ?_
  cases (p.resume base pending m.core).1 with
  | error e => exact .failed e
  | ok _ => exact .go (.running (point.of_code kept.code) base)

theorem running_follow (alike : Alike m n) {f g : FunctionId} {pc pc' : Nat} {base : Window} {p q : Proto}
    (here : m.activity = .running f base pc) (there : n.activity = .running g base pc')
    (script : m.core.world.proto? f = some p) (script' : m.core.world.proto? g = some q) (same : p.SamePlain q)
    (ready : Proto.Ready p q pc pc') : Follow m.step n.step := by
  have script'' : n.core.world.callable g = .script q := by
    rw [alike.core]
    exact World.proto?_eq_some.mp script'
  rw [step_working here (by simp), step_working there (by simp),
    Activity.step_running (World.proto?_eq_some.mp script), Activity.step_running script'',
    Proto.step_plain _ ready.plain, Proto.step_plain _ ready.plain', alike.core]
  obtain ⟨stack, outcome⟩ := ready.effect same base m.core.context.stack
  -- a script that does not leave has passed one plain instruction more
  have later {effect : Effect} (done : (p.effect base m.core.context.stack p.code[pc]?).1 = .ok effect)
      (stays : effect ≠ .leave) : m.core.world.SamePoint f (pc + 1) g (pc' + 1) := by
    rcases ready.instr same with ⟨nothing, _⟩ | ⟨instr, other, found, found', _⟩
    · rw [nothing] at done
      exact absurd (Effect.eq_of_after done) stays
    · refine ⟨p, q, script, script', same, ?_⟩
      rw [plainBefore_plain found (ready.plain _ found), plainBefore_plain found' (ready.plain' _ found'), ready.behind]
  simp only [Proto.stepOf, stack]
  have kept : m.core.Keeps (m.core.withStack (p.effect base m.core.context.stack p.code[pc]?).2) := .withStack _ _
  refine after_follow alike.callers alike.pending kept alike.unmetered ?_
  rcases outcome with ⟨e, done, done'⟩ | ⟨effect, other, done, done', alike⟩
  · rw [done, done']
    exact .failed e
  · rw [done, done']
    cases alike with
    | jump behind => exact .go (.running ⟨p, q, script, script', same, behind⟩ base)
    | same effect stays =>
      cases effect with
      | advance => exact .go (.running (later done (by simp)) base)
      | jump target => exact absurd rfl (stays target)
      | await pending r callee => exact .call (.script (later done (by simp)) base (some pending)) r callee
      | leave => exact .go (.same _)

/-- One step of a run is matched by the other, after the accounting that it has to pass first. -/
theorem advance (alike : Alike m n) :
    (∃ next, m.step = .inl next ∧ m.call = [] ∧ Alike next n) ∨
      ∃ ready, n.Reaches 0 [] ready ∧ ready.call = m.call ∧ Follow m.step ready.step := by
  have activity := alike.activity
  generalize here : m.activity = a at activity
  generalize there : n.activity = b at activity
  cases activity with
  | same => exact .inr ⟨n, .here, alike.call, alike.same_follow (there.trans here.symm)⟩
  | resume point base pending => exact .inr ⟨n, .here, alike.call, alike.resume_follow point here there⟩
  | @running f g pc pc' point base =>
    obtain ⟨p, q, script, script', same, behind⟩ := id point
    by_cases plain : ∀ instr, p.code[pc]? = some instr → instr.isAccounting = false
    · have unmetered : n.core.context.budget.slice = none := by rw [alike.core, alike.unmetered]
      obtain ⟨stop, passed, plain', reaches⟩ := reaches_plain unmetered there (p := q) (by rw [alike.core, script'])
      have behind' : plainBefore q.code stop = plainBefore p.code pc := passed.trans behind
      have alike' : Alike m { n with activity := .running g base stop } :=
        ⟨alike.core, alike.unmetered, here ▸ .running ⟨p, q, script, script', same, behind'⟩ base, alike.callers,
          alike.pending⟩
      exact .inr ⟨_, reaches, alike'.call,
        alike'.running_follow here rfl script script' same ⟨behind', plain, plain'⟩⟩
    · obtain ⟨instr, plain⟩ := Classical.not_forall.mp plain
      obtain ⟨found, accounting⟩ := Classical.not_imp.mp plain
      have accounting := Bool.of_not_eq_false accounting
      obtain ⟨moved, silent⟩ := step_accounting alike.unmetered here script found accounting
      refine .inl ⟨_, moved, silent, alike.core, alike.unmetered, ?_, alike.callers, alike.pending⟩
      rw [there]
      exact .running ⟨p, q, script, script', same, behind.trans (plainBefore_accounting found accounting).symm⟩ base

/-- A stretch of a run is matched by a stretch of the other with the same calls. -/
theorem reaches (alike : Alike m n) {pauses : Nat} {calls : List Call} {last : Machine}
    (goes : m.Reaches pauses calls last) : ∃ last', n.Reaches pauses calls last' ∧ Alike last last' := by
  induction goes generalizing n with
  | here => exact ⟨n, .here, alike⟩
  | next moved rest ih =>
    rcases alike.advance with ⟨next, moved', silent, alike⟩ | ⟨ready, start, call, follow⟩
    · cases moved.symm.trans moved'
      rw [silent]
      exact ih alike
    · obtain ⟨next', stepped, alike⟩ := follow.next moved
      obtain ⟨last', goes, alike⟩ := ih alike
      have whole := start.trans (.next stepped goes)
      rw [call, Nat.zero_add] at whole
      exact ⟨last', whole, alike⟩
  | pause halted rest ih =>
    rcases alike.advance with ⟨next, moved', _⟩ | ⟨ready, start, call, follow⟩
    · cases halted.symm.trans moved'
    · obtain ⟨paused', stepped, alike⟩ := follow.pause halted
      obtain ⟨last', goes, alike⟩ := ih alike
      have whole := start.trans (.pause stepped goes)
      rw [call, Nat.zero_add] at whole
      exact ⟨last', whole, alike⟩

theorem completes (alike : Alike m n) {pauses : Nat} {calls : List Call} {halt : Halt} {last : Machine}
    (goes : m.Completes pauses calls halt last) : ∃ last', n.Completes pauses calls halt last' ∧ last'.core = last.core := by
  obtain ⟨before, final, stretch, halted, ended, rfl⟩ := goes.reaches
  obtain ⟨final', stretch', alike'⟩ := alike.reaches stretch
  rcases alike'.advance with ⟨next, moved, _⟩ | ⟨ready, start, call, follow⟩
  · cases halted.symm.trans moved
  · obtain ⟨last', stepped, core⟩ := follow.stop halted ended
    have whole := stretch'.completes (start.completes (.stop stepped ended))
    rw [call] at whole
    exact ⟨last', whole, core⟩

end Alike

namespace Follow

theorem symm {m n : Machine ⊕ (Halt × Machine)} (follow : Follow m n) : Follow n m := by
  cases follow with
  | moved alike => exact .moved alike.symm
  | paused alike => exact .paused alike.symm
  | ended ended core => exact .ended ended core.symm

variable {m n : Machine} {pauses : Nat} {calls : List Call}

theorem reaches (follow : Follow m.step n.step) (calling : m.call ≠ []) {last : Machine}
    (goes : m.Reaches pauses (m.call ++ calls) last) : ∃ last', n.Reaches pauses (n.call ++ calls) last' := by
  generalize made : m.call ++ calls = all at goes
  cases goes with
  | here => exact absurd (List.append_eq_nil_iff.mp made).1 calling
  | next moved rest =>
    cases List.append_cancel_left made
    obtain ⟨next', stepped, alike⟩ := follow.next moved
    obtain ⟨last', rest', _⟩ := alike.reaches rest
    exact ⟨last', .next stepped rest'⟩
  | pause halted rest =>
    cases List.append_cancel_left made
    obtain ⟨paused', stepped, alike⟩ := follow.pause halted
    obtain ⟨last', rest', _⟩ := alike.reaches rest
    exact ⟨last', .pause stepped rest'⟩

theorem completes (follow : Follow m.step n.step) {halt : Halt} {last : Machine}
    (goes : m.Completes pauses (m.call ++ calls) halt last) :
    ∃ last', n.Completes pauses (n.call ++ calls) halt last' ∧ last'.core = last.core := by
  generalize made : m.call ++ calls = all at goes
  cases goes with
  | stop halted ended =>
    rw [List.append_right_eq_self.mp made, List.append_nil]
    obtain ⟨last', stepped, core⟩ := follow.stop halted ended
    exact ⟨last', .stop stepped ended, core⟩
  | next moved rest =>
    cases List.append_cancel_left made
    obtain ⟨next', stepped, alike⟩ := follow.next moved
    obtain ⟨last', rest', core⟩ := alike.completes rest
    exact ⟨last', .next stepped rest', core⟩
  | pause halted rest =>
    cases List.append_cancel_left made
    obtain ⟨paused', stepped, alike⟩ := follow.pause halted
    obtain ⟨last', rest', core⟩ := alike.completes rest
    exact ⟨last', .pause stepped rest', core⟩

end Follow

/-- Machines about to make a call that have the same course from there on: the calls that one
has made at any time, however long it runs, are calls that the other makes as well, in the same
order, and one comes to an end exactly if the other does, the same way and with everything that
calls work on in the same state. -/
structure SameCourse (m n : Machine) : Prop where
  reaches : ∀ pauses calls, (∃ last, m.Reaches pauses (m.call ++ calls) last) ↔
    ∃ last, n.Reaches pauses (n.call ++ calls) last
  completes : ∀ pauses calls halt core, (∃ last, m.Completes pauses (m.call ++ calls) halt last ∧ last.core = core) ↔
    ∃ last, n.Completes pauses (n.call ++ calls) halt last ∧ last.core = core

theorem SameCourse.of_follow {m n : Machine} (follow : Follow m.step n.step) (calling : m.call ≠ [])
    (calling' : n.call ≠ []) : SameCourse m n := by
  constructor
  · intro pauses calls
    constructor
    · rintro ⟨last, goes⟩
      exact follow.reaches calling goes
    · rintro ⟨last, goes⟩
      exact follow.symm.reaches calling' goes
  · intro pauses calls halt core
    constructor
    · rintro ⟨last, goes, rfl⟩
      exact follow.completes goes
    · rintro ⟨last, goes, rfl⟩
      exact follow.symm.completes goes

theorem enter_sameCourse {c : Core} {f g : FunctionId} {p q : Proto} (unmetered : c.context.budget.slice = none)
    (script : c.world.callable f = .script p) (script' : c.world.callable g = .script q) (same : p.SamePlain q)
    (base : Window) (callers pending : List Frame) :
    SameCourse ⟨c, .enter f base, callers, pending⟩ ⟨c, .enter g base, callers, pending⟩ := by
  refine .of_follow ?_ (List.cons_ne_nil _ _) (List.cons_ne_nil _ _)
  have entered (h : FunctionId) (r : Proto) (found : c.world.callable h = .script r) (equal : r.enter base = p.enter base) :
      (Activity.enter h base).step c =
        ((p.enter base c).1.map fun _ => .go (.running h base 0), (p.enter base c).2) := by
    rw [Activity.step_enter, found]
    simp only [Callable.invoke, Core.bind_apply, Core.getStack_apply, equal]
    rcases p.enter base c with ⟨_ | _, _⟩ <;> rfl
  have kept : c.Keeps (p.enter base c).2 := Core.Conservative.of_local (p.enter_local base) c
  have frames (list : List Frame) : list.Forall₂ (Frame.Alike c.world) list :=
    List.forall₂_same.mpr fun frame _ => .same frame
  have point : c.world.SamePoint f 0 g 0 :=
    ⟨p, q, World.proto?_eq_some.mpr script, World.proto?_eq_some.mpr script', same, by
      rw [plainBefore_zero, plainBefore_zero]⟩
  rw [step_working (a := .enter f base) rfl (by simp), step_working (a := .enter g base) rfl (by simp),
    entered f p script rfl, entered g q script' (same.enter_eq base)]
  refine after_follow (frames callers) (frames pending) kept unmetered ?_
  cases (p.enter base c).1 with
  | error e => exact .failed e
  | ok _ => exact .go (.running (point.of_code kept.code) base)

end Machine

namespace Proto

theorem samePlain_instrument {p : Proto} (short : p.code.length < 2 ^ 30) (costs : CostTable) :
    p.SamePlain { p with code := instrument p.code costs } := by
  have bound := stripAccounting_length_le p.code
  refine ⟨rfl, rfl, rfl, rfl, stripAccounting_instrument short costs, ?_, ?_⟩
  · simp only [UInt32.size]
    omega
  · change (instrument p.code costs).length < UInt32.size
    have few := relocated_le (Nat.le_refl (stripAccounting p.code).length)
    rw [instrument_eq_accounted, accounted_length costs (Nat.le_refl _)]
    simp only [UInt32.size]
    omega

/-- A verified script is accepted with accounting, and without a budget a call of it has the
same course as one of the original, whatever waits for it. -/
theorem withCode_instrument_sameCourse {p : Proto} (verified : p.verified = .ok p) (short : p.code.length < 2 ^ 30)
    (costs : CostTable) : ∃ q, p.withCode (instrument p.code costs) = .ok q ∧
      ∀ (c : Core) (f g : FunctionId) (base : Window) (callers pending : List Frame),
        c.context.budget.slice = none → c.world.callable f = .script p → c.world.callable g = .script q →
        Machine.SameCourse ⟨c, .enter f base, callers, pending⟩ ⟨c, .enter g base, callers, pending⟩ := by
  refine ⟨_, withCode_instrument verified costs, ?_⟩
  intro c f g base callers pending unmetered script script'
  exact Machine.enter_sameCourse unmetered script script' (samePlain_instrument short costs) base callers pending

/-- A script that counts to three in a loop, with accounting of its own at the jump back. -/
private def counting : Proto where
  name := "counting"
  params := 0
  regs := 3
  constants := [.int 0, .int 1, .int 3]
  code := [.loadConst 0 0, .loadConst 1 2, .tick, .compare .lt 2 0 1, .jumpIfNot 2 8, .loadConst 2 1, .arith .add 0 0 2,
    .jump 2, .ret 0 1]

private def countingCore : Core :=
  ⟨{ functions := #[.script counting, .script { counting with code := instrument counting.code {} }] },
    { stack := ⟨#[.nil, .nil, .nil, .nil], 0⟩, budget := Budget.new { budget := none } }⟩

theorem withCode_instrument_sameCourse_counting :
    Machine.SameCourse ⟨countingCore, .enter ⟨0⟩ ⟨0⟩, [], []⟩ ⟨countingCore, .enter ⟨1⟩ ⟨0⟩, [], []⟩ := by
  obtain ⟨q, accepted, course⟩ := withCode_instrument_sameCourse (p := counting) (by decide) (by decide) {}
  rw [withCode_instrument (by decide)] at accepted
  cases accepted
  exact course countingCore ⟨0⟩ ⟨1⟩ ⟨0⟩ [] [] rfl rfl rfl

end Proto

end CoopScript
