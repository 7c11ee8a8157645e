import CoopScript.Proofs.HandleWrites
import CoopScript.Proofs.PendingCalls
import CoopScript.Proofs.SoundFrames
import Mathlib.Logic.Relation

/-! The changes that running code makes to a world, one at a time. Tables are never among what is
changed, nor are the metatables of userdata, and a function that is no iteration stays what it is,
so whoever only reads those finds them the same after any run. What has been written to a stream
stays as it is too, unless the handle is one that may be written to. -/

namespace CoopScript

theorem Core.Local.world {α : Type} {op : CoreM α} (stacked : Local op) (c : Core) : (op c).2.world = c.world := by
  rw [stacked c c rfl]
  rfl

theorem Core.performed_world (c : Core) (f : FunctionId) (w : Window) (outcome : Except Failure Action × World) :
    (c.performed f w outcome).2.world = outcome.2 := by
  obtain ⟨_ | a, v⟩ := outcome
  · rfl
  · have performed := a.perform_performed f w { c with world := v }
    change (a.perform f w { c with world := v }).2.world = v
    generalize a.perform f w { c with world := v } = result at performed
    cases performed with
    | returned same | waits same | suspended same | failed same => exact same

namespace Activity

open CoopScript.Core

/-- What a step can do to the world: nothing, or move an iteration on, or what the function at work
asks for. -/
inductive Touches (c : Core) : Activity → World → Prop where
  | nothing {a : Activity} {v : World} (same : v = c.world) : Touches c a v
  | moved {f : FunctionId} {w : Window} {cursor : Pattern.Cursor} (found : c.world.callable f = .matches cursor)
      (next : Pattern.Cursor) : Touches c (.enter f w) (c.world.setCallable f (.matches next))
  | invoked {f : FunctionId} {w : Window} {b : Builtin} (found : c.world.callable f = .builtin b) :
      Touches c (.enter f w) (b.invoke (w.values c.context.stack) c.world).2
  | resumed {f : FunctionId} {w : Window} {s : Saved} {b : Builtin} (found : c.world.callable f = .builtin b) :
      Touches c (.resume f w s) (b.resume s (w.values c.context.stack) c.world).2
  | began {a : Activity} (file : UserdataId) (formats : List ReadFormat) :
      Touches c a (Files.nextItems file formats c.world).2
  | read {a : Activity} (r : ReadingItems) :
      Touches c a (Files.readItems r.file r.results r.collected r.formats c.world).2
  | answered {a : Activity} (r : Reply) : Touches c a (r.action c.world).2

theorem Touches.performed {a : Activity} {c : Core} (outcome : Except Failure Action × World)
    (touches : a.Touches c outcome.2) (f : FunctionId) (w : Window) :
    a.Touches c (c.performed f w outcome).2.world := by
  rw [performed_world]
  exact touches

theorem enter_touches (f : FunctionId) (w : Window) (c : Core) :
    (enter f w).Touches c ((c.world.callable f).invoke f w c).2.world := by
  cases found : c.world.callable f with
  | script p =>
    exact .nothing ((Local.getStack.bind fun _ => (p.enter_local w).bind fun _ => .pure _).world c)
  | builtin b =>
    rw [Callable.invoke_builtin]
    exact .performed _ (.invoked found) f w
  | «matches» cursor =>
    exact Touches.performed (.ok (.ret cursor.advance.1), _) (.moved found cursor.advance.2) f w
  | lines file formats =>
    rw [Callable.invoke_lines]
    exact .performed _ (.began file formats) f w
  | host h =>
    have same : (Callable.host h).invoke f w c =
        c.performed f w ((h.invoke (w.values c.context.stack)).action c.world) :=
      onWorld_perform (h.invoke (w.values c.context.stack)).action f w c
    rw [same]
    exact .performed _ (.answered _) f w

theorem resume_touches (f : FunctionId) (w : Window) (s : Saved) (c : Core) :
    (resume f w s).Touches c ((c.world.callable f).resume f w s c).2.world := by
  cases found : c.world.callable f with
  | script p =>
    cases s with
    | script pc pending =>
      exact .nothing ((Local.getStack.bind fun _ => (p.resume_local w pending).bind fun _ => .pure _).world c)
    | _ => exact .nothing rfl
  | builtin b =>
    rw [Callable.resume_builtin]
    exact .performed _ (.resumed found) f w
  | «matches» cursor => exact .nothing rfl
  | lines file formats =>
    cases s with
    | reading r =>
      rw [Callable.resume_lines]
      exact .performed _ (.read r) f w
    | _ => exact .nothing rfl
  | host h =>
    have same : (Callable.host h).resume f w s c =
        c.performed f w ((h.resume s (w.values c.context.stack)).action c.world) :=
      onWorld_perform (h.resume s (w.values c.context.stack)).action f w c
    rw [same]
    exact .performed _ (.answered _) f w

theorem step_touches (a : Activity) (c : Core) : a.Touches c (a.step c).2.world := by
  cases a with
  | returned => exact .nothing rfl
  | dispatch r w =>
    have world : (r.serve w c).2.world = c.world := by
      rw [r.serve_local w c c ⟨rfl, rfl⟩ rfl]
      rfl
    refine .nothing ?_
    simp only [step, bind_apply]
    generalize r.serve w c = result at world
    obtain ⟨_ | _, _⟩ := result <;> exact world
  | enter f w => exact enter_touches f w c
  | resume f w s => exact resume_touches f w s c
  | running f w pc =>
    refine .nothing ?_
    cases found : c.world.callable f with
    | script p =>
      rw [step_running found]
      rcases p.place_cases pc with plain | ⟨cost, found⟩ | found
      · rw [Proto.step_plain c plain]
        rfl
      · rw [Proto.step_charge c found]
        rfl
      · rw [Proto.step_tick c found]
        split <;> rfl
    | _ =>
      simp only [step, bind_apply, getWorld_apply, found]
      rfl

end Activity

namespace World

/-- A single change, where the given handles may be written to. -/
inductive Change (writes : UserdataId → Prop) : World → World → Prop where
  /-- A handle has been worked on. -/
  | stored {w : World} {u : UserdataId} {h : Handle} {t : Transfer} (found : w.file? u = some h)
      (spares : writes u ∨ (h.IsStream → t.handle.IsStream ∧ t.handle.written = h.written)) :
      Change writes w (w.stored u t)
  | disk {w : World} (disk : Disk) : Change writes w { w with disk }
  | opened {w : World} (h : Handle) : Change writes w (w.addFile h).2
  | selected {w : World} (which : Io.Default) (u : UserdataId) : Change writes w (Io.setDefault w which u)
  | created {w : World} {c : Callable} (iteration : c.IsIteration) : Change writes w (w.addFunction c).2
  /-- An iteration has moved on. -/
  | advanced {w : World} {f : FunctionId} {cursor : Pattern.Cursor} (found : w.callable f = .matches cursor)
      (next : Pattern.Cursor) : Change writes w (w.setCallable f (.matches next))
  | logged {w : World} (log : List String) : Change writes w { w with log }

def Becomes (writes : UserdataId → Prop) : World → World → Prop := Relation.ReflTransGen (Change writes)

variable {writes : UserdataId → Prop}

theorem Becomes.refl (w : World) : w.Becomes writes w := Relation.ReflTransGen.refl

theorem Becomes.trans {u v w : World} (first : u.Becomes writes v) (rest : v.Becomes writes w) : u.Becomes writes w :=
  Relation.ReflTransGen.trans first rest

theorem Change.becomes {w v : World} (change : w.Change writes v) : w.Becomes writes v := .single change

/-- An operation that makes such changes only. -/
def Gradual {α : Type} (writes : UserdataId → Prop) (op : WorldM α) : Prop := ∀ w : World, w.Becomes writes (op w).2

namespace Gradual

variable {α β : Type} {u : UserdataId}

theorem pure (a : α) : Gradual writes (Pure.pure a) := Becomes.refl

theorem throw (e : Failure) : Gradual writes (throw e : WorldM α) := Becomes.refl

theorem raising (result : Except ScriptError α) : Gradual writes (raising result) := by
  cases result with
  | ok a => exact .pure a
  | error e => exact .throw _

theorem bind {op : WorldM α} {next : α → WorldM β} (first : Gradual writes op) (rest : ∀ a, Gradual writes (next a)) :
    Gradual writes (op >>= next) := by
  intro w
  have becomes := first w
  rw [bind_apply]
  generalize op w = result at becomes
  obtain ⟨_ | a, after⟩ := result
  · exact becomes
  · exact becomes.trans (rest a after)

theorem read {next : World → WorldM α} (rest : ∀ w, Gradual writes (next w)) : Gradual writes (getThe World >>= next) :=
  fun w => rest w w

theorem transferring {op : TransferM α} (spares : writes u ∨ Transfer.Conserves op) (collected : Bytes) (taken : Nat) :
    Gradual writes (Files.transferring u collected taken op) := by
  intro w
  cases found : w.file? u with
  | none =>
    rw [Files.transferring, read_apply, found]
    exact .refl w
  | some h =>
    rw [transferring_apply found]
    refine (Change.stored found (spares.imp_right ?_)).becomes
    intro conserves stream
    have conveys := conserves { handle := h, disk := w.disk, collected, taken } stream
    exact ⟨conveys.stream, conveys.written⟩

theorem writeOn {r : Writing} (allowed : writes r.file) : Gradual writes (Files.writeOn r) := by
  refine (transferring (.inl allowed) _ _).bind fun (result, t) => ?_
  rcases result with error | _
  · cases error with
    | wouldBlock => exact .pure _
    | _ => exact .throw _
  · exact .pure _

theorem readItems (results : List Value) (collected : Bytes) (formats : List ReadFormat) :
    Gradual writes (Files.readItems u results collected formats) := by
  induction formats generalizing results collected with
  | nil => exact .pure _
  | cons format formats ih =>
    refine (transferring (.inr (.readItem format)) _ _).bind fun (result, t) => ?_
    rcases result with error | item
    · cases error with
      | wouldBlock => exact .pure _
      | _ => exact .throw _
    · simp only
      split
      · exact .pure _
      · exact ih _ _

theorem nextItems (formats : List ReadFormat) : Gradual writes (Files.nextItems u formats) := by
  refine .read fun w => ?_
  cases w.file? u with
  | none => exact .throw _
  | some h =>
    simp only
    split
    · exact .throw _
    · exact readItems _ _ _

theorem controlOn (c : Control) : Gradual writes (Files.controlOn u c) := by
  have conserves : Transfer.Conserves c.transfer := by
    cases c with
    | seek target => exact (Transfer.Conserves.seek target).bind fun _ => .pure _
    | buffering mode => exact (Transfer.Conserves.setBuffering mode).bind fun _ => .pure _
  rw [Files.controlOn_eq]
  refine (transferring (.inr conserves) _ _).bind fun (result, t) => ?_
  rcases result with error | _
  · cases error <;> exact .pure _
  · exact .pure _

theorem finishOn (closing : Bool) : Gradual writes (Files.finishOn closing u) := by
  have conserves : Transfer.Conserves (if closing then Transfer.close else Transfer.flush) := by
    cases closing with
    | true => exact .close
    | false => exact .flush
  refine (transferring (.inr conserves) _ _).bind fun (result, t) => ?_
  rcases result with error | _
  · cases error with
    | wouldBlock => exact .pure _
    | _ => exact .throw _
  · exact .pure _

theorem openHandle (mode : OpenMode) (name : String) : Gradual writes (Io.openHandle mode name) := by
  intro w
  rw [Io.openHandle, read_apply]
  rcases mode.openFile w.disk name with ⟨_ | descriptor, disk⟩
  · exact (Change.disk disk).becomes
  · exact (Change.disk disk).becomes.trans (Change.opened _).becomes

theorem select (which : Io.Default) (args : List Value) : Gradual writes (Io.select which args) := by
  have changed (u : UserdataId) : Gradual writes (modify fun w => Io.setDefault w which u : WorldM Unit) :=
    fun w => (Change.selected which u).becomes
  have answered :
      Gradual writes (getThe World >>= fun w => Pure.pure (.ret [.userdata (Io.default w which)]) : WorldM Action) :=
    .read fun _ => .pure _
  unfold Io.select
  extract_lets name mode v byName
  have named : Gradual writes byName := by
    simp only [byName]
    split
    · exact .throw _
    · refine (openHandle _ _).bind fun opened => ?_
      cases opened with
      | ok u => exact changed u
      | error e => exact .throw _
  clear_value byName v
  cases v with
  | nil => exact answered
  | userdata u =>
    refine .read fun w => ?_
    split
    · exact (changed u).bind fun _ => answered
    · exact named.bind fun _ => answered
  | _ => exact named.bind fun _ => answered

theorem iteration {c : Callable} (iteration : c.IsIteration) :
    Gradual writes (do
      let (f, w) := (← getThe World).addFunction c
      set w
      return .ret [.function f] : WorldM Action) :=
  fun _ => (Change.created iteration).becomes

theorem native (f : List Value → Except ScriptError (List Value)) (args : List Value) :
    Gradual writes (Builtin.native f args) :=
  (raising _).bind fun _ => .pure _

theorem formatOn (s : Formatting) : Gradual writes (Builtin.formatOn s) := by
  refine (raising _).bind fun next => ?_
  cases next <;> exact .pure _

end Gradual

end World

open World in
/-- An operation of a handle writes to no other, and only if it is a write. -/
theorem FileOperation.perform_gradual {writes : UserdataId → Prop} {u : UserdataId} (op : FileOperation)
    (allowed : ∀ data, op = .write data → writes u) : Gradual writes (op.perform u) := by
  cases op with
  | read formats => exact .readItems _ _ _
  | write data => exact .writeOn (allowed data rfl)
  | control c => exact .controlOn c
  | flush => exact .finishOn false
  | close =>
    refine .read fun w => ?_
    split
    · exact .pure _
    · exact .finishOn true

namespace World

variable {writes : UserdataId → Prop} {w : World}

theorem Serves.becomes {asked : Option (UserdataId × FileOperation)} {outcome : Except Failure Action × World}
    (serves : w.Serves asked outcome) (allowed : ∀ u data, asked = some (u, .write data) → writes u) :
    w.Becomes writes outcome.2 := by
  cases asked with
  | none =>
    obtain ⟨e, rfl⟩ := serves
    exact .refl w
  | some request =>
    obtain ⟨u, op⟩ := request
    obtain rfl : outcome = op.perform u w := serves
    refine op.perform_gradual ?_ w
    rintro data rfl
    exact allowed u data rfl

/-- A function of the library writes to the handle it is asked to write to and to no other. -/
theorem invoke_becomes {b : Builtin} {args : List Value}
    (allowed : ∀ u data, w.asked? b args = some (u, .write data) → writes u) :
    w.Becomes writes (b.invoke args w).2 := by
  cases b with
  | pause => exact Gradual.pure _ w
  | tostring => exact (Gradual.raising _).bind (fun _ => .pure _) w
  | typeName | byte | char | find | len | lower | firstMatch | rep | reverse | sub | upper => exact Gradual.native _ _ w
  | error => exact Gradual.read (fun _ => .throw _) w
  | format => exact (Gradual.raising _).bind (fun _ => .formatOn _) w
  | gsub => exact (Gradual.raising _).bind (fun _ => .pure _) w
  | gmatch => exact (Gradual.raising _).bind (fun cursor => .iteration (c := .matches cursor) trivial) w
  | fileWrite => exact (Files.write_serves w args).becomes allowed
  | fileRead => exact (Files.read_serves w args).becomes allowed
  | fileFlush => exact (Files.flush_serves w args).becomes allowed
  | fileClose => exact (Files.close_serves w args).becomes allowed
  | fileSeek => exact (Files.seek_serves w args).becomes allowed
  | fileSetvbuf => exact (Files.setvbuf_serves w args).becomes allowed
  | fileLines =>
    refine (Gradual.read fun _ => .raising _).bind ?_ w
    rintro ⟨file, formats⟩
    exact .iteration (c := .lines file formats) trivial
  | fileTostring =>
    refine Gradual.read (fun w => ?_) w
    split
    · split
      · split <;> exact .pure _
      · exact .pure _
    · exact .throw _
  | ioWrite | ioRead | ioFlush | ioClose => exact Gradual.read (fun _ => .pure _) w
  | ioOpen =>
    refine (Gradual.raising _).bind (fun _ => (Gradual.openHandle _ _).bind fun result => ?_) w
    cases result <;> exact .pure _
  | ioInput | ioOutput => exact Gradual.select _ _ w
  | ioType =>
    refine (Gradual.raising _).bind (fun v => ?_) w
    cases v with
    | userdata u =>
      refine .read fun w => ?_
      cases w.file? u <;> exact .pure _
    | _ => exact .pure _

theorem resume_gradual {b : Builtin} {s : Saved} (allowed : ∀ r, b = .fileWrite → s = .writing r → writes r.file)
    (held : List Value) : Gradual writes (b.resume s held) := by
  cases expected : b.expects s with
  | false =>
    intro w
    rw [Builtin.resume_unexpected expected]
    exact .refl w
  | true =>
    unfold Builtin.expects at expected
    split at expected
    · exact .pure _
    · simp only [Builtin.resume]
      split
      · exact .pure _
      · exact .throw _
    · exact (Gradual.raising _).bind fun _ => .formatOn _
    · exact (Gradual.raising _).bind fun _ => .pure _
    · exact .writeOn (allowed _ rfl rfl)
    · exact .readItems _ _ _
    · exact .controlOn _
    · exact .controlOn _
    · exact .finishOn _
    · exact .finishOn _
    iterate 4 exact .pure _
    cases expected

theorem action_gradual (r : Reply) : Gradual writes r.action := by
  have logged : Gradual writes (modify fun w => { w with log := w.log ++ r.log } : WorldM Unit) :=
    fun w => (Change.logged _).becomes
  refine logged.bind fun _ => ?_
  split
  · exact .pure _
  · exact .throw _

/-- What the changes leave: tables, functions that are no iterations, and the metatables of
userdata. -/
structure Precedes (w v : World) : Prop where
  tables : v.tables = w.tables
  functions : w.functions.size ≤ v.functions.size
  kept : ∀ f, f.index < w.functions.size → (∀ cursor, w.callable f ≠ .matches cursor) → v.callable f = w.callable f
  objects : w.objects.size ≤ v.objects.size
  metatable : ∀ u, u.index < w.objects.size → (v.userdata u).metatable = (w.userdata u).metatable

theorem Precedes.trans {u v w : World} (first : u.Precedes v) (rest : v.Precedes w) : u.Precedes w := by
  refine
    { tables := rest.tables.trans first.tables
      functions := first.functions.trans rest.functions
      kept := ?_
      objects := first.objects.trans rest.objects
      metatable := ?_ }
  · intro f inside other
    have same := first.kept f inside other
    rw [← same] at other ⊢
    exact rest.kept f (Nat.lt_of_lt_of_le inside first.functions) other
  · intro x inside
    rw [rest.metatable x (Nat.lt_of_lt_of_le inside first.objects), first.metatable x inside]

theorem Precedes.of_same {w v : World} (tables : v.tables = w.tables) (functions : v.functions = w.functions)
    (objects : v.objects = w.objects) : w.Precedes v := by
  refine ⟨tables, by rw [functions], ?_, by rw [objects], ?_⟩
  · intro f _ _
    rw [callable, callable, functions]
  · intro u _
    rw [userdata, userdata, objects]

theorem Change.precedes {v : World} (change : w.Change writes v) : w.Precedes v := by
  cases change with
  | disk disk => exact .of_same rfl rfl rfl
  | logged log => exact .of_same rfl rfl rfl
  | selected which u => cases which <;> exact .of_same rfl rfl rfl
  | @stored u _ t =>
    refine ⟨rfl, Nat.le_refl _, fun _ _ _ => rfl, by simp [World.stored, setFile], ?_⟩
    intro x inside
    simp only [userdata, World.stored, setFile, Array.getD_eq_getD_getElem?, Array.getElem?_setIfInBounds]
    by_cases same : u.index = x.index
    · simp [same, inside]
    · simp [same]
  | opened h =>
    refine ⟨rfl, Nat.le_refl _, fun _ _ _ => rfl, by simp [addFile, addUserdata], ?_⟩
    intro x inside
    simp [userdata, addFile, addUserdata, Array.getD_eq_getD_getElem?, Array.getElem?_push_lt, inside]
  | created iteration =>
    refine ⟨rfl, by simp [addFunction], ?_, Nat.le_refl _, fun _ _ => rfl⟩
    exact fun f inside _ => w.callable_addFunction_of_lt inside _
  | @advanced f cursor found next =>
    refine ⟨rfl, by simp [setCallable], ?_, Nat.le_refl _, fun _ _ => rfl⟩
    intro g inside other
    exact (callable_advanced found next g).resolve_right fun advanced => other cursor advanced.1

theorem Becomes.precedes {v : World} (becomes : w.Becomes writes v) : w.Precedes v := by
  induction becomes with
  | refl => exact .of_same rfl rfl rfl
  | tail _ change ih => exact ih.trans change.precedes

end World

/-- The data that a frame which was suspended goes on writing. -/
def Frame.writing? (w : World) (frame : Frame) : Option Writing :=
  match w.callable frame.function, frame.state with
  | .builtin .fileWrite, some (.writing r) => some r
  | _, _ => none

theorem Frame.writing?_eq_some {w : World} {frame : Frame} {r : Writing} :
    frame.writing? w = some r ↔ w.callable frame.function = .builtin .fileWrite ∧ frame.state = some (.writing r) := by
  unfold writing?
  split
  · next writer state => simp [writer, state]
  · next other =>
    simp only [reduceCtorEq, false_iff, not_and]
    exact fun writer state => other r writer state

theorem World.asked?_write {w : World} {b : Builtin} {args : List Value} {u : UserdataId} {data : Bytes}
    (asked : w.asked? b args = some (u, .write data)) : b = .fileWrite := by
  have named := (asked?_eq_some.mp asked).2
  cases b with
  | fileWrite => rfl
  | fileRead | fileSeek | fileSetvbuf => simp [Builtin.operation?, Option.bind_eq_some_iff] at named
  | _ => cases named

namespace Activity

/-- The data that a step is about to write. -/
def writing? (c : Core) : Activity → Option Writing
  | .enter f w =>
    match c.world.callable f with
    | .builtin .fileWrite =>
      match c.world.asked? .fileWrite (w.values c.context.stack) with
      | some (u, .write data) => some { file := u, data }
      | _ => none
    | _ => none
  | .resume f w s => Frame.writing? c.world ⟨f, w, some s⟩
  | _ => none

variable {writes : UserdataId → Prop} {c : Core}

theorem writing?_of_asked {f : FunctionId} {w : Window} {u : UserdataId} {data : Bytes}
    (writer : c.world.callable f = .builtin .fileWrite)
    (asked : c.world.asked? .fileWrite (w.values c.context.stack) = some (u, .write data)) :
    (enter f w).writing? c = some { file := u, data } := by
  simp only [writing?, writer, asked]

/-- A step changes the world bit by bit, and writes to no handle but the one it is about to write to. -/
theorem step_becomes (a : Activity) (allowed : ∀ r, a.writing? c = some r → writes r.file) :
    c.world.Becomes writes (a.step c).2.world := by
  have touches := a.step_touches c
  generalize (a.step c).2.world = v at touches
  cases touches with
  | nothing same => exact same ▸ .refl _
  | moved found next => exact (World.Change.advanced found next).becomes
  | invoked found =>
    apply World.invoke_becomes
    intro u data asked
    cases World.asked?_write asked
    exact allowed _ (writing?_of_asked found asked)
  | resumed found =>
    refine World.resume_gradual ?_ _ _
    rintro r rfl rfl
    exact allowed r (Frame.writing?_eq_some.mpr ⟨found, rfl⟩)
  | began file formats => exact World.Gradual.nextItems formats _
  | read r => exact World.Gradual.readItems _ _ _ _
  | answered r => exact World.action_gradual r _

theorem step_precedes (a : Activity) (c : Core) : c.world.Precedes (a.step c).2.world := by
  have becomes : c.world.Becomes (fun _ => True) (a.step c).2.world := a.step_becomes fun _ _ => trivial
  exact becomes.precedes

/-- A step changes no function that is there already, unless it is an iteration that moves on. -/
theorem step_spares (a : Activity) (c : Core) {f : FunctionId} (inside : f.index < c.world.functions.size)
    (idle : ∀ w, a ≠ .enter f w) : (a.step c).2.world.callable f = c.world.callable f := by
  have kept {v : World} (grown : c.world.Extends v) : v.callable f = c.world.callable f := by
    refine (grown.callable f).resolve_right fun absent => ?_
    rw [Array.getElem?_eq_getElem inside] at absent
    cases absent.1
  have touches := a.step_touches c
  generalize (a.step c).2.world = v at touches
  cases touches with
  | nothing same => rw [same]
  | @moved g w cursor found next =>
    have apart : g.index ≠ f.index := by
      intro same
      exact idle w (congrArg (enter · w) (congrArg FunctionId.mk same))
    exact c.world.callable_setCallable_of_ne apart _
  | invoked found => exact kept (World.invoke_ensures _ _ _).grown
  | resumed found => exact kept (World.resume_extends _ _ _ _)
  | began file formats => exact kept (World.nextItems_ensures (Callable.lines_expects file formats) file formats _).grown
  | read r =>
    exact kept (World.readItems_ensures (Callable.lines_expects r.file r.formats) r.file r.results r.collected r.formats
      _).grown
  | answered r => exact kept (World.action_extends r _)

end Activity

namespace Machine

variable {m next last : Machine} {halt : Halt}

/-- What a step leaves, whether the machine moves on or comes to rest. -/
def stepCore (m : Machine) : Core := m.step.elim Machine.core fun rested => rested.2.core

theorem stepCore_of_moved (moved : m.step = .inl next) : m.stepCore = next.core := by
  rw [stepCore, moved]
  rfl

theorem stepCore_of_rested (rested : m.step = .inr (halt, last)) : m.stepCore = last.core := by
  rw [stepCore, rested]
  rfl

/-- A step of a machine leaves the functions that the step of its activity leaves. -/
theorem step_functions (m : Machine) : m.stepCore.world.functions = (m.activity.step m.core).2.world.functions := by
  cases moved : m.step with
  | inl next =>
    rw [stepCore_of_moved moved]
    cases Step.of_step moved with
    | returned returned => rw [returned]; rfl
    | went _ stepped | called _ stepped => rw [stepped]
  | inr rested =>
    obtain ⟨halt, last⟩ := rested
    rw [stepCore_of_rested moved]
    cases Halted.of_step moved with
    | finished returned | refused returned => rw [returned]; rfl
    | failed _ stepped | stranded _ stepped | paused _ stepped => rw [stepped]; rfl

theorem run_precedes {fuel : Nat} (ran : m.run fuel = some (halt, last)) :
    m.core.world.Precedes last.core.world :=
  run_preserves (R := fun c d => c.world.Precedes d.world) (fun _ => .of_same rfl rfl rfl) World.Precedes.trans
    Activity.step_precedes (fun _ _ => .of_same rfl rfl rfl) ran

end Machine

end CoopScript
