import CoopScript.Proofs.WorldChanges

/-! What a step does to the bytes written to a stream. A step of a write that works on the handle
takes more of its data; every other step leaves the bytes as they are. -/

namespace CoopScript

namespace World

variable {u : UserdataId} {w v : World}

theorem addFile_file? (inside : u.index < w.objects.size) (h : Handle) :
    (w.addFile h).2.file? u = w.file? u := by
  simp [file?, userdata, addFile, addUserdata, Array.getD_eq_getD_getElem?, Array.getElem?_push_lt, inside]

/-- If the handle is on a stream, it still is, and the same bytes have been written to it. -/
def Carries (u : UserdataId) (w after : World) : Prop :=
  ∀ h, w.file? u = some h → h.IsStream →
    ∃ next, after.file? u = some next ∧ next.IsStream ∧ next.written = h.written

theorem Carries.of_same {after : World} (same : after.file? u = w.file? u) : w.Carries u after :=
  fun h found stream => ⟨h, same.trans found, stream, rfl⟩

theorem Carries.trans {between after : World} (first : w.Carries u between) (rest : between.Carries u after) :
    w.Carries u after := by
  intro h found stream
  obtain ⟨next, found, stream, written⟩ := first h found stream
  obtain ⟨last, found, stream, same⟩ := rest next found stream
  exact ⟨last, found, stream, same.trans written⟩

theorem Change.carries {writes : UserdataId → Prop} (spared : ¬writes u) (change : w.Change writes v) :
    w.Carries u v := by
  cases change with
  | @stored x _ t found spares =>
    by_cases same : x = u
    · subst same
      intro h found' stream
      cases found.symm.trans found'
      obtain ⟨still, written⟩ := spares.resolve_left spared stream
      exact ⟨_, stored_file? found _, still, written⟩
    · exact .of_same (stored_file?_other (Ne.symm same) _)
  | opened h =>
    intro h' found stream
    refine ⟨h', ?_, stream, rfl⟩
    rw [← found]
    exact addFile_file? (inside_of_file? found) h
  | selected which x => exact .of_same (by cases which <;> rfl)
  | disk | created | advanced | logged => exact .of_same rfl

/-- What has been written to a stream is left as it is by changes that do not write to it. -/
theorem Becomes.carries {writes : UserdataId → Prop} (spared : ¬writes u) (becomes : w.Becomes writes v) :
    w.Carries u v := by
  induction becomes with
  | refl => exact .of_same rfl
  | tail _ change ih => exact ih.trans (change.carries spared)

/-- The functions that write to handles are the same. -/
def SameWriters (w v : World) : Prop := ∀ f, v.callable f = .builtin .fileWrite ↔ w.callable f = .builtin .fileWrite

theorem Extends.sameWriters {v : World} (grown : w.Extends v) : w.SameWriters v := by
  intro f
  rcases grown.callable f with same | ⟨absent, iteration⟩
  · rw [same]
  · rw [callable_of_absent absent]
    generalize v.callable f = c at iteration
    cases c with
    | «matches» _ | lines _ _ => simp
    | script _ | builtin _ | host _ => cases iteration

theorem setCallable_sameWriters {f : FunctionId} {cursor : Pattern.Cursor} (found : w.callable f = .matches cursor)
    (next : Pattern.Cursor) : w.SameWriters (w.setCallable f (.matches next)) := by
  intro g
  rcases callable_advanced found next g with same | ⟨before, after⟩
  · rw [same]
  · rw [before, after]
    simp

theorem Change.sameWriters {writes : UserdataId → Prop} (change : w.Change writes v) : w.SameWriters v := by
  cases change with
  | created iteration => exact (Extends.addFunction w iteration).sameWriters
  | advanced found next => exact setCallable_sameWriters found next
  | selected which x => cases which <;> exact fun _ => Iff.rfl
  | stored | disk | opened | logged => exact fun _ => Iff.rfl

theorem Becomes.sameWriters {writes : UserdataId → Prop} (becomes : w.Becomes writes v) : w.SameWriters v := by
  induction becomes with
  | refl => exact fun _ => Iff.rfl
  | tail _ change ih => exact fun f => (change.sameWriters f).trans (ih f)

end World

theorem Activity.step_sameWriters (a : Activity) (c : Core) : c.world.SameWriters (a.step c).2.world := by
  have becomes : c.world.Becomes (fun _ => True) (a.step c).2.world := a.step_becomes fun _ _ => trivial
  exact becomes.sameWriters

theorem Frame.writing?_of_sameWriters {w v : World} (same : w.SameWriters v) (frame : Frame) :
    frame.writing? v = frame.writing? w := by
  refine Option.ext fun r => ?_
  rw [writing?_eq_some, writing?_eq_some, same frame.function]

namespace Activity

variable {a : Activity} {c : Core} {f : FunctionId} {w : Window}

/-- What a step of the function that writes comes to: it works on the data, or fails with no change,
or is not at work at all. -/
inductive WriterStep (a : Activity) (c : Core) (f : FunctionId) (w : Window) : Prop where
  | works {r : Writing} (writing : a.writing? c = some r)
      (stepped : a.step c = c.performed f w (Files.writeOn r c.world))
  | fails {e : Failure} (idle : a.writing? c = none) (stepped : a.step c = (.error e, c))
  | returns (idle : a.writing? c = none) (stepped : a.step c = (.ok (.go .returned), c))

theorem step_writer (own : a.activation? = some ⟨f, w⟩) (writer : c.world.callable f = .builtin .fileWrite) :
    a.WriterStep c f w := by
  cases a with
  | returned | dispatch _ _ => cases own
  | enter g v =>
    cases own
    have stepped : (enter f w).step c =
        c.performed f w (Builtin.fileWrite.invoke (w.values c.context.stack) c.world) := by
      change (c.world.callable f).invoke f w c = _
      rw [writer, Callable.invoke_builtin]
    have serves := Files.write_serves c.world (w.values c.context.stack)
    cases asked : c.world.asked? .fileWrite (w.values c.context.stack) with
    | none =>
      rw [asked] at serves
      obtain ⟨e, failed⟩ := serves
      rw [failed] at stepped
      exact .fails (by simp only [writing?, writer, asked]) stepped
    | some request =>
      obtain ⟨u, op⟩ := request
      rw [asked] at serves
      obtain ⟨texts, _, rfl⟩ := Option.map_eq_some_iff.mp (World.asked?_eq_some.mp asked).2
      rw [serves] at stepped
      exact .works (r := { file := u, data := _ }) (by simp only [writing?, writer, asked]) stepped
  | resume g v s =>
    cases own
    have stepped : (resume f w s).step c =
        c.performed f w (Builtin.fileWrite.resume s (w.values c.context.stack) c.world) := by
      change (c.world.callable f).resume f w s c = _
      rw [writer, Callable.resume_builtin]
    cases expected : Builtin.fileWrite.expects s with
    | true =>
      cases s with
      | writing r => exact .works (Frame.writing?_eq_some.mpr ⟨writer, rfl⟩) stepped
      | _ => cases expected
    | false =>
      rw [Builtin.resume_unexpected expected] at stepped
      refine .fails (Option.eq_none_iff_forall_ne_some.mpr fun r writing => ?_) stepped
      obtain ⟨_, state⟩ := Frame.writing?_eq_some.mp writing
      cases state
      cases expected
  | running g v pc =>
    cases own
    refine .returns rfl ?_
    simp only [step, Core.bind_apply, Core.getWorld_apply, writer]
    rfl

end Activity

/-- The frame that waits after a move. -/
def Move.frame? : Move → Option Frame
  | .go _ => none
  | .call frame _ _ | .suspend _ frame => some frame

theorem Core.state?_of_performed {c d : Core} {f : FunctionId} {w : Window} {a : Action} {v : World} {move : Move}
    {frame : Frame} (performed : c.performed f w (.ok a, v) = (.ok move, d)) (framed : move.frame? = some frame) :
    ∃ s, a.state? = some s ∧ frame.state = some s := by
  have outcome := a.perform_performed f w { c with world := v }
  change a.perform f w { c with world := v } = _ at performed
  rw [performed] at outcome
  cases outcome with
  | returned => cases framed
  | waits _ saves | suspended _ saves =>
    cases framed
    exact ⟨_, saves, rfl⟩

/-- How writing on can end. -/
inductive Files.WroteOn (r : Writing) : Except Failure Action × World → Prop where
  | returned (v : World) : WroteOn r (.ok (.ret [.userdata r.file]), v)
  | blocked (v : World) (taken : Nat) : WroteOn r (.ok (.suspend .blocked (.writing { r with taken })), v)
  | failed (e : Failure) (v : World) : WroteOn r (.error e, v)

theorem Files.writeOn_wroteOn (r : Writing) (w : World) : WroteOn r (writeOn r w) := by
  cases found : w.file? r.file with
  | none =>
    rw [writeOn, World.bind_apply, transferring, World.read_apply, found]
    exact .failed _ _
  | some h =>
    rw [writeOn_apply found]
    rcases Transfer.write r.data { handle := h, disk := w.disk, taken := r.taken } with ⟨e | _, t⟩
    · cases e with
      | wouldBlock => exact .blocked _ _
      | _ => exact .failed _ _
    · exact .returned _

namespace Activity

variable {a : Activity} {c d : Core} {frame : Frame}

/-- A step that does not write to the handle leaves the bytes written to it as they are. -/
theorem step_carries {u : UserdataId} (other : ∀ r, a.writing? c = some r → r.file ≠ u) :
    c.world.Carries u (a.step c).2.world := by
  have becomes : c.world.Becomes (· ≠ u) (a.step c).2.world := a.step_becomes other
  apply becomes.carries
  simp

theorem activation?_of_frame? {move : Move} (stepped : (a.step c).1 = .ok move) (framed : move.frame? = some frame) :
    a.activation? = some frame.activation := by
  obtain ⟨call, own⟩ : ∃ call, a.activation? = some call := by
    cases a with
    | returned =>
      cases stepped
      cases framed
    | dispatch r w =>
      simp only [step, Core.bind_apply] at stepped
      split at stepped <;> cases stepped
      cases framed
    | enter _ _ | resume _ _ _ | running _ _ _ => exact ⟨_, rfl⟩
  rw [own]
  cases step_leads own stepped with
  | returned | running => cases framed
  | waits _ same | suspended _ same =>
    cases framed
    rw [same]

/-- Only a write that is suspended leaves a frame that goes on writing. -/
theorem step_frame {move : Move} {r : Writing} (stepped : a.step c = (.ok move, d)) (framed : move.frame? = some frame)
    (writing : frame.writing? d.world = some r) : move = .suspend .blocked frame ∧ ∃ earlier,
      a.writing? c = some earlier ∧ Files.writeOn earlier c.world = (.ok (.suspend .blocked (.writing r)), d.world) := by
  have own := activation?_of_frame? (congrArg Prod.fst stepped) framed
  obtain ⟨writer, state⟩ := Frame.writing?_eq_some.mp writing
  have same := a.step_sameWriters c frame.function
  rw [stepped] at same
  cases step_writer own (same.mp writer) with
  | fails _ failed => cases stepped.symm.trans failed
  | returns _ returned =>
    cases stepped.symm.trans returned
    cases framed
  | @works earlier working performed =>
    have wrote := Files.writeOn_wroteOn earlier c.world
    rw [stepped] at performed
    generalize written : Files.writeOn earlier c.world = outcome at wrote performed
    cases wrote with
    | failed => cases performed
    | returned v =>
      obtain ⟨_, saves, _⟩ := Core.state?_of_performed performed.symm framed
      cases saves
    | blocked v taken =>
      obtain ⟨function, base, saved⟩ := frame
      cases performed
      cases framed
      cases state
      exact ⟨rfl, earlier, working, written⟩

theorem step_of_writing {r : Writing} (writing : a.writing? c = some r) :
    ∃ f w, a ≠ .returned ∧ a.step c = c.performed f w (Files.writeOn r c.world) := by
  obtain ⟨f, w, own, writer⟩ : ∃ f w, a.activation? = some ⟨f, w⟩ ∧ c.world.callable f = .builtin .fileWrite := by
    cases a with
    | returned | dispatch _ _ | running _ _ _ => cases writing
    | enter f w =>
      refine ⟨f, w, rfl, ?_⟩
      simp only [writing?] at writing
      split at writing
      · assumption
      · cases writing
    | resume f w s => exact ⟨f, w, rfl, (Frame.writing?_eq_some.mp writing).1⟩
  refine ⟨f, w, ?_, ?_⟩
  · rintro rfl
    cases own
  · cases step_writer own writer with
    | works same stepped =>
      cases same.symm.trans writing
      exact stepped
    | fails idle | returns idle => cases idle.symm.trans writing

end Activity

end CoopScript
