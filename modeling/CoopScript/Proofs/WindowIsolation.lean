import CoopScript.Proofs.CallExtent
import CoopScript.Proofs.PendingCalls

/-! Isolation of windows. A call is made in a window at or below the cursor, and from then on all
that it does, by itself or in the calls it makes, happens in windows at or above that one: whoever
called it finds every slot below as it was. -/

namespace CoopScript

/-- The slots below the floor and the number of slots are the same, and the cursor is not below. -/
structure RegisterStack.Intact (floor : Nat) (s t : RegisterStack) : Prop where
  capacity : t.capacity = s.capacity
  below : ∀ i, i < floor → t.get i = s.get i
  top : floor ≤ t.top

namespace RegisterStack.Intact

variable {floor : Nat} {s t u : RegisterStack}

theorem refl (above : floor ≤ s.top) : s.Intact floor s := ⟨rfl, fun _ _ => rfl, above⟩

theorem confined (intact : s.Intact floor t) (confined : t.Confined floor u) : s.Intact floor u := by
  refine ⟨confined.capacity.trans intact.capacity, ?_, confined.top intact.top⟩
  intro i low
  rw [confined.below intact.top i low, intact.below i low]

end RegisterStack.Intact

namespace Activity

/-- The windows of the activity lie at or above the floor. -/
def Above (floor : Nat) (a : Activity) : Prop := ∀ w ∈ a.window?, floor ≤ w.offset

variable {floor : Nat} {a : Activity} {c : Core} {move : Move}

private theorem above_of_leads {call : Activation} {world : World} (low : floor ≤ call.base.offset)
    (leads : call.Leads world move) :
    move.Satisfies (Above floor) fun frame => floor ≤ frame.base.offset := by
  cases leads with
  | returned => simp [Move.Satisfies, Above, window?]
  | running pc =>
    rintro _ ⟨⟩
    exact low
  | @waits frame r inner own started awaits =>
    have low : floor ≤ frame.base.offset := by rwa [← own] at low
    refine ⟨low, ?_⟩
    rintro _ ⟨⟩
    exact Nat.le_trans low awaits.offset
  | suspended reason own =>
    rw [← own] at low
    exact low

private theorem above_of_served {r : Request} {w : Window} (low : floor ≤ w.offset) (served : r.Served w a) :
    a.Above floor := by
  cases served with
  | returned => simp [Above, window?]
  | call f | handler v value asked =>
    rintro _ ⟨⟩
    exact low

/-- No step leads below the window it works in. -/
theorem step_above (above : a.Above floor) (stepped : (a.step c).1 = .ok move) :
    move.Satisfies (Above floor) fun frame => floor ≤ frame.base.offset := by
  cases own : a.activation? with
  | some call => exact above_of_leads (above _ (window?_of_activation? own)) (step_leads own stepped)
  | none =>
    cases a with
    | enter _ _ | resume _ _ _ | running _ _ _ => cases own
    | returned =>
      cases stepped
      exact above
    | dispatch r w =>
      simp only [step, Core.bind_apply] at stepped
      split at stepped
      · next served =>
        cases stepped
        exact above_of_served (above w rfl) (Request.serve_served (congrArg Prod.fst served))
      · cases stepped

end Activity

/-- Calls made above a floor keep what a stack has below it. -/
def Invariant.isolation (floor : Nat) (s : RegisterStack) : Invariant fun _ => True where
  state t := s.Intact floor t
  activity _ _ a := a.Above floor
  frame _ _ frame := floor ≤ frame.base.offset
  waits _ low := low
  returned := by simp [Activity.Above, Activity.window?]
  taken := by
    rintro _ _ ⟨f, base, state⟩ low
    cases state <;>
      · rintro _ ⟨⟩
        exact low
  stepped := by
    intro c d a result _ _ intact above stepped
    have confined := Activity.step_confined above c
    rw [stepped] at confined
    refine ⟨intact.confined confined, ?_⟩
    rintro move rfl
    exact Activity.step_above above (congrArg Prod.fst stepped)

namespace Machine

/-- What is at work above a floor leaves the slots below it alone until it is over. -/
theorem During.intact {only : Callable → Prop} {m last : Machine} {floor : Nat} (above : m.activity.Above floor)
    (cursor : floor ≤ m.core.context.stack.top) (during : During only m.frames m last) :
    last.Holds (.isolation floor m.core.context.stack) m.frames :=
  (during.mono fun _ _ => trivial).holds ⟨.refl cursor, above, [], rfl, by simp⟩

/-- From the call of a function in a window to its end, through the calls it makes and all
suspensions, nothing below the window changes; nor does it where the run comes to rest. -/
theorem During.isolated {only : Callable → Prop} {m last : Machine} {f : FunctionId} {w : Window}
    (entered : m.activity = .enter f w) (above : w.offset ≤ m.core.context.stack.top)
    (during : During only m.frames m last) : m.core.context.stack.Intact w.offset last.core.context.stack ∧
      ∀ halt halted, last.step = .inr (halt, halted) →
        m.core.context.stack.Intact w.offset halted.core.context.stack := by
  have inside : m.activity.Above w.offset := by
    rw [entered]
    rintro _ ⟨⟩
    exact Nat.le_refl _
  have holds := during.intact inside above
  exact ⟨holds.state, fun _ _ halted => holds.halted ⟨fun _ _ => trivial⟩ halted⟩

private def guarded : Machine where
  core :=
    { world := { functions := #[.script ⟨"waiting", 0, 2, [.function ⟨1⟩], [.loadConst 0 0, .call 0 0 1, .ret 0 1]⟩,
        .builtin .pause] }
      context := { stack := ⟨#[.bool true, .nil, .nil, .nil], 1⟩, budget := Budget.new {}, draining := true } }
  activity := .enter ⟨0⟩ ⟨1⟩

/-- The slot below the call of a script still holds its value after the script was suspended in a
call of its own and has returned. -/
theorem During.isolated_guarded : (guarded.driven 10).activity = .returned ∧ (guarded.driven 10).frames = [] ∧
    (guarded.driven 10).core.context.stack.get 0 = .bool true := by
  have shipped : guarded.core.world.Shipped := by decide
  have isolated := During.isolated (m := guarded) rfl (Nat.le_refl 1) (During.driven shipped .here 10).1
  exact ⟨by cbv, by cbv, isolated.1.below 0 Nat.zero_lt_one⟩

end Machine

end CoopScript
