import CoopScript.Proofs.HandleReads
import CoopScript.Proofs.LibraryStates
import CoopScript.Proofs.StepEffects

/-! Calls of the methods of handles. The arguments after the handle name an operation, or the call
is refused before anything is done. An operation works on the one handle and on the disk, and
leaves the rest of the world as it is. -/

namespace CoopScript

/-- What a method can be asked to do with its handle. -/
inductive FileOperation where
  | read (formats : List ReadFormat)
  | write (data : Bytes)
  | control (c : Control)
  | flush
  | close

namespace FileOperation

def perform (u : UserdataId) : FileOperation → WorldM Action
  | .read formats => Files.readItems u [] [] formats
  | .write data => Files.writeOn { file := u, data }
  | .control c => Files.controlOn u c
  | .flush => Files.finishOn false u
  | .close => do
    if ((← getThe World).file? u).any (·.standard) then return .ret [.nil, .str "cannot close standard file"]
    else Files.finishOn true u

end FileOperation

/-- The place that a text and an offset name. -/
def Seek.named? (whence : String) (offset : Int) : Option Seek :=
  match whence with
  | "set" => if 0 ≤ offset then some (.start offset.toNat) else none
  | "cur" => some (.current offset)
  | "end" => some (.fromEnd offset)
  | _ => none

namespace Builtin

/-- An argument that may be missing. -/
def optional {α : Type} (read : Value → Option α) (default : α) (v : Value) : Option α :=
  if v.isNil then some default else read v

/-- The operation that a method is asked for by the arguments after the handle. -/
def operation? (b : Builtin) (args : List Value) : Option FileOperation :=
  match b with
  | .fileRead =>
    (args.mapM ReadFormat.named?).map fun formats => .read (if formats.isEmpty then [.line false] else formats)
  | .fileWrite => (args.mapM Value.asText?).map fun texts => .write (texts.flatMap Strings.bytes)
  | .fileSeek => do
    let whence ← optional Value.asText? "cur" (args[0]?.getD .nil)
    let offset ← optional Value.asInt? 0 (args[1]?.getD .nil)
    let target ← Seek.named? whence offset.toInt
    return .control (.seek target)
  | .fileSetvbuf => do
    let mode ← (args[0]?.getD Value.nil).asText?
    let size ← optional Value.asInt? (Int64.ofNat chunkSize) (args[1]?.getD .nil)
    let buffering ← if size.toInt < 0 then none else Buffering.named? mode size.toInt.toNat
    return .control (.buffering buffering)
  | .fileFlush => some .flush
  | .fileClose => some .close
  | _ => none

end Builtin

namespace Arguments

variable {α β : Type} (a : Arguments)

/-- The next value, or nil. -/
def upcoming : Value := a.values[a.position]?.getD .nil

def advanced : Arguments := { a with position := a.position + 1 }

theorem toOption_bind (op : ArgumentsM α) (next : α → ArgumentsM β) :
    ((op >>= next) a).toOption = (op a).toOption.bind fun r => (next r.1 r.2).toOption := by
  change (Except.bind (op a) fun r => next r.1 r.2).toOption = _
  cases op a <;> rfl

theorem toOption_pure (x : α) : ((pure x : ArgumentsM α) a).toOption = some (x, a) := rfl

theorem toOption_get : ((get : ArgumentsM Arguments) a).toOption = some (a, a) := rfl

theorem nextOrNil_toOption : (nextOrNil a).toOption = some (a.upcoming, a.advanced) := rfl

theorem nextText_toOption : (nextText a).toOption = a.upcoming.asText?.map (·, a.advanced) := by
  simp only [nextText, toOption_bind, nextOrNil_toOption, toOption_get, Option.bind_some]
  cases a.upcoming.asText? <;> rfl

theorem nextInt_toOption : (nextInt a).toOption = a.upcoming.asInt?.map (·, a.advanced) := by
  simp only [nextInt, toOption_bind, nextOrNil_toOption, toOption_get, Option.bind_some]
  cases a.upcoming.asInt? with
  | some i => rfl
  | none =>
    simp only
    split <;> rfl

theorem toOption_ite (c : Bool) (first other : ArgumentsM α) :
    ((if c then first else other : ArgumentsM α) a).toOption = if c then (first a).toOption else (other a).toOption := by
  cases c <;> rfl

theorem isNil_upcoming : a.upcoming.isNil = a.nextAbsent := rfl

theorem optInt_toOption (default : Int64) :
    (optInt default a).toOption = (Builtin.optional Value.asInt? default a.upcoming).map (·, a.advanced) := by
  rw [Builtin.optional, isNil_upcoming]
  simp only [optInt, toOption_bind, toOption_get, Option.bind_some, toOption_ite, nextInt_toOption]
  cases a.nextAbsent <;> rfl

theorem optText_toOption : (optText a).toOption =
    (Builtin.optional (fun v => v.asText?.map some) none a.upcoming).map (·, a.advanced) := by
  rw [Builtin.optional, isNil_upcoming]
  simp only [optText, toOption_bind, toOption_get, Option.bind_some, toOption_ite, nextText_toOption]
  cases a.nextAbsent with
  | true => rfl
  | false => cases a.upcoming.asText? <;> rfl

theorem reading_toOption (function : String) (values : List Value) (reader : ArgumentsM α) :
    (reading function values reader).toOption = (reader { function, values }).toOption.map Prod.fst := by
  simp only [reading, StateT.run]
  cases reader { function, values } <;> rfl

theorem drop_advanced {v : Value} {values : List Value} (left : a.values.drop a.position = v :: values) :
    a.upcoming = v ∧ a.advanced.values.drop a.advanced.position = values := by
  refine ⟨?_, ?_⟩
  · rw [upcoming, ← List.head?_drop, left]
    rfl
  · change a.values.drop (a.position + 1) = values
    rw [← List.tail_drop, left]
    rfl

theorem restFormats_toOption {values : List Value} (left : a.values.drop a.position = values) :
    (Files.restFormats values.length a).toOption.map Prod.fst = values.mapM ReadFormat.named? := by
  induction values generalizing a with
  | nil => rfl
  | cons v values ih =>
    obtain ⟨next, rest⟩ := a.drop_advanced left
    have later := ih a.advanced rest
    simp only [List.length_cons, Files.restFormats, toOption_bind, nextOrNil_toOption, Option.bind_some, next,
      List.mapM_cons]
    cases ReadFormat.named? v with
    | none => rfl
    | some format =>
      simp only [toOption_bind, ← later]
      cases (Files.restFormats values.length a.advanced).toOption <;> rfl

theorem restBytes_toOption {values : List Value} (left : a.values.drop a.position = values) :
    (Files.restBytes values.length a).toOption.map Prod.fst =
      (values.mapM Value.asText?).map fun texts => texts.flatMap Strings.bytes := by
  induction values generalizing a with
  | nil => rfl
  | cons v values ih =>
    obtain ⟨next, rest⟩ := a.drop_advanced left
    have later := ih a.advanced rest
    simp only [List.length_cons, Files.restBytes, toOption_bind, nextText_toOption, next, List.mapM_cons]
    cases v.asText? with
    | none => rfl
    | some text =>
      simp only [Option.map_some, Option.bind_some, Option.bind_eq_bind]
      generalize (Files.restBytes values.length a.advanced).toOption = read at later
      cases texts : values.mapM Value.asText? <;> cases read <;> simp_all [toOption_pure]

end Arguments

namespace World

/-- The handle that a method is called on; it must be open. -/
def openFile? (w : World) (args : List Value) : Option UserdataId :=
  match args with
  | .userdata u :: _ => if (w.file? u).any (!·.closed) then some u else none
  | _ => none

/-- The handle and the operation that the arguments of a method ask for. -/
def asked? (w : World) (b : Builtin) (args : List Value) : Option (UserdataId × FileOperation) :=
  (w.openFile? args).bind fun u => (b.operation? args.tail).map (u, ·)

theorem asked?_eq_some {w : World} {b : Builtin} {args : List Value} {u : UserdataId} {op : FileOperation} :
    w.asked? b args = some (u, op) ↔ w.openFile? args = some u ∧ b.operation? args.tail = some op := by
  simp only [asked?, Option.bind_eq_some_iff, Option.map_eq_some_iff, Prod.mk.injEq]
  constructor
  · rintro ⟨_, handle, _, named, rfl, rfl⟩
    exact ⟨handle, named⟩
  · rintro ⟨handle, named⟩
    exact ⟨u, handle, op, named, rfl, rfl⟩

/-- What is asked for is performed, and if nothing is, there is an error and no change. -/
def Serves (w : World) (asked : Option (UserdataId × FileOperation)) (outcome : Except Failure Action × World) : Prop :=
  match asked with
  | some (u, op) => outcome = op.perform u w
  | none => ∃ e, outcome = (.error (.script e), w)

theorem Serves.of_reading {α : Type} (w : World) (result : Except ScriptError α)
    (request : α → UserdataId × FileOperation) :
    w.Serves (result.toOption.map request) ((raising result >>= fun a => (request a).2.perform (request a).1) w) := by
  cases result with
  | ok a => rfl
  | error e => exact ⟨e, rfl⟩

end World

namespace Files

open Arguments

theorem fileArgument_toOption (w : World) (function : String) (args : List Value) :
    (fileArgument w { function, values := args }).toOption =
      (w.openFile? args).map (·, { function, values := args, position := 1 }) := by
  simp only [fileArgument, toOption_bind, nextOrNil_toOption, toOption_get, Option.bind_some]
  cases args with
  | nil => rfl
  | cons v args =>
    cases v with
    | userdata u =>
      simp only [upcoming, List.getElem?_cons_zero, Option.getD_some, World.openFile?]
      cases w.file? u with
      | none => rfl
      | some h => cases closed : h.closed <;> simp [closed] <;> rfl
    | _ => rfl

theorem reading_file {α : Type} (w : World) (function : String) (args : List Value) (rest : UserdataId → ArgumentsM α) :
    (reading function args (fileArgument w >>= rest)).toOption =
      (w.openFile? args).bind fun u => (rest u { function, values := args, position := 1 }).toOption.map Prod.fst := by
  rw [reading_toOption, toOption_bind, fileArgument_toOption]
  cases w.openFile? args <;> rfl

/-- The arguments of a method once the handle has been read. -/
def afterFile (function : String) (args : List Value) : Arguments := { function, values := args, position := 1 }

private theorem afterFile_left (function : String) (args : List Value) :
    (afterFile function args).values.drop (afterFile function args).position = args.tail := List.drop_one

/-- A method reads its handle and the rest of its arguments, and then performs what they name. -/
theorem method_serves {α : Type} (w : World) (b : Builtin) (function : String) (args : List Value)
    (rest : UserdataId → ArgumentsM α) (request : α → UserdataId × FileOperation)
    (named : ∀ u, (rest u (afterFile function args)).toOption.map (fun r => request r.1) =
      (b.operation? args.tail).map (u, ·)) :
    w.Serves (w.asked? b args)
      ((raising (reading function args (fileArgument w >>= rest)) >>= fun a => (request a).2.perform (request a).1) w) := by
  have serves := World.Serves.of_reading w (reading function args (fileArgument w >>= rest)) request
  have same : (reading function args (fileArgument w >>= rest)).toOption.map request = w.asked? b args := by
    rw [reading_file, World.asked?]
    cases w.openFile? args with
    | none => rfl
    | some u =>
      rw [Option.bind_some, Option.bind_some, Option.map_map]
      exact named u
  rw [same] at serves
  exact serves

private theorem map_pair {α β γ : Type} (read : Option (α × Arguments)) (pair : α → β) (request : β → γ) :
    (read.bind fun r => some (pair r.1, r.2)).map (fun r => request r.1) =
      (read.map Prod.fst).map fun a => request (pair a) := by
  cases read <;> rfl

theorem write_serves (w : World) (args : List Value) :
    w.Serves (w.asked? .fileWrite args) (Builtin.fileWrite.invoke args w) := by
  have texts := restBytes_toOption _ (afterFile_left "write" args)
  rw [List.length_tail] at texts
  have serves := method_serves w .fileWrite "write" args
    (fun file => do
      let data ← restBytes (args.length - 1)
      return (file, data))
    (fun r => (r.1, .write r.2)) (by
      intro u
      simp only [toOption_bind, toOption_pure, Builtin.operation?]
      rw [map_pair _ (fun data : Bytes => (u, data)) fun r => (r.1, FileOperation.write r.2), texts]
      simp only [Option.map_map, Function.comp_def])
  rw [Builtin.invoke, Files.write, World.read_apply]
  exact serves

theorem read_serves (w : World) (args : List Value) :
    w.Serves (w.asked? .fileRead args) (Builtin.fileRead.invoke args w) := by
  have formats := restFormats_toOption _ (afterFile_left "read" args)
  rw [List.length_tail] at formats
  have serves := method_serves w .fileRead "read" args
    (fun file => do
      let formats ← restFormats (args.length - 1)
      return (file, if formats.isEmpty then [ReadFormat.line false] else formats))
    (fun r => (r.1, .read r.2)) (by
      intro u
      simp only [toOption_bind, toOption_pure, Builtin.operation?]
      rw [map_pair _ (fun formats : List ReadFormat => (u, if formats.isEmpty then [ReadFormat.line false] else formats))
        fun r => (r.1, FileOperation.read r.2), formats]
      simp only [Option.map_map, Function.comp_def])
  rw [Builtin.invoke, Files.read, World.bind_apply, fileAndFormats, World.read_apply]
  rw [World.bind_apply] at serves
  exact serves

theorem flush_serves (w : World) (args : List Value) :
    w.Serves (w.asked? .fileFlush args) (Builtin.fileFlush.invoke args w) := by
  have serves := method_serves w .fileFlush "flush" args pure (fun u => (u, .flush)) fun _ => rfl
  rw [bind_pure] at serves
  exact serves

theorem close_serves (w : World) (args : List Value) :
    w.Serves (w.asked? .fileClose args) (Builtin.fileClose.invoke args w) := by
  have serves := method_serves w .fileClose "close" args pure (fun u => (u, .close)) fun _ => rfl
  rw [bind_pure] at serves
  have same : Files.close args w =
      (raising (reading "close" args (fileArgument w)) >>= fun u => FileOperation.close.perform u) w := by
    simp only [Files.close, World.read_apply]
    cases reading "close" args (fileArgument w) with
    | error e => rfl
    | ok u =>
      simp only [raising, pure_bind, FileOperation.perform, World.read_apply]
      cases w.file? u with
      | none => rfl
      | some h => cases standard : h.standard <;> simp [standard]
  rw [Builtin.invoke, same]
  exact serves

private theorem first_upcoming (function : String) (args : List Value) :
    (afterFile function args).upcoming = args.tail[0]?.getD .nil := by
  cases args <;> rfl

theorem optional_getD (default : String) (v : Value) : Builtin.optional Value.asText? default v =
    (Builtin.optional (fun v => v.asText?.map some) none v).map (·.getD default) := by
  unfold Builtin.optional
  split
  · rfl
  · simp only
    cases v.asText? <;> rfl

/-- The place to seek, from what the arguments say. -/
private def placeAt (file : UserdataId) (whence : String) (offset : Int) : ArgumentsM (UserdataId × Seek) := do
  let target ←
    match whence with
    | "set" =>
      if 0 ≤ offset then pure (Seek.start offset.toNat)
      else throw ((← get).bad 3 .offsetOutOfRange)
    | "cur" => pure (Seek.current offset)
    | "end" => pure (Seek.fromEnd offset)
    | other => throw ((← get).bad 2 (.invalidOption other))
  return (file, target)

private theorem placeAt_toOption (file : UserdataId) (whence : String) (offset : Int) (a : Arguments) :
    (placeAt file whence offset a).toOption = (Seek.named? whence offset).map fun target => ((file, target), a) := by
  unfold placeAt Seek.named?
  split
  · split <;> rfl
  · rfl
  · rfl
  · rfl

theorem seek_serves (w : World) (args : List Value) :
    w.Serves (w.asked? .fileSeek args) (Builtin.fileSeek.invoke args w) := by
  refine method_serves w .fileSeek "seek" args
    (fun file => do
      let whence ← optText
      let offset ← optInt 0
      placeAt file (whence.getD "cur") offset.toInt)
    (fun r => (r.1, .control (.seek r.2))) fun u => ?_
  have second : (afterFile "seek" args).advanced.upcoming = args.tail[1]?.getD .nil := by cases args <;> rfl
  simp only [toOption_bind, optText_toOption, optInt_toOption, placeAt_toOption, Builtin.operation?, first_upcoming,
    optional_getD]
  cases Builtin.optional (fun v => v.asText?.map some) none (args.tail[0]?.getD .nil) with
  | none => rfl
  | some whence =>
    simp only [Option.map_some, Option.bind_some, second]
    cases Builtin.optional Value.asInt? 0 (args.tail[1]?.getD .nil) with
    | none => rfl
    | some offset =>
      simp only [Option.map_some, Option.bind_some, Option.bind_eq_bind]
      cases Seek.named? (whence.getD "cur") offset.toInt <;> rfl

/-- The buffering, from what the arguments say. -/
private def bufferingOf (file : UserdataId) (mode : String) (size : Int) : ArgumentsM (UserdataId × Buffering) := do
  if size < 0 then throw ((← get).bad 3 .invalidBufferSize)
  match Buffering.named? mode size.toNat with
  | some buffering => return (file, buffering)
  | none => throw ((← get).bad 2 (.invalidOption mode))

private theorem bufferingOf_toOption (file : UserdataId) (mode : String) (size : Int) (a : Arguments) :
    (bufferingOf file mode size a).toOption = (if size < 0 then none else Buffering.named? mode size.toNat).map
      fun buffering => ((file, buffering), a) := by
  unfold bufferingOf
  split
  · rfl
  · cases Buffering.named? mode size.toNat <;> rfl

theorem setvbuf_serves (w : World) (args : List Value) :
    w.Serves (w.asked? .fileSetvbuf args) (Builtin.fileSetvbuf.invoke args w) := by
  refine method_serves w .fileSetvbuf "setvbuf" args
    (fun file => do
      let mode ← nextText
      let size ← optInt (Int64.ofNat chunkSize)
      bufferingOf file mode size.toInt)
    (fun r => (r.1, .control (.buffering r.2))) fun u => ?_
  have second : (afterFile "setvbuf" args).advanced.upcoming = args.tail[1]?.getD .nil := by cases args <;> rfl
  simp only [toOption_bind, nextText_toOption, optInt_toOption, bufferingOf_toOption, Builtin.operation?, first_upcoming]
  cases (args.tail[0]?.getD Value.nil).asText? with
  | none => rfl
  | some mode =>
    simp only [Option.map_some, Option.bind_some, second]
    cases Builtin.optional Value.asInt? (Int64.ofNat chunkSize) (args.tail[1]?.getD .nil) with
    | none => rfl
    | some size =>
      simp only [Option.map_some, Option.bind_some, Option.bind_eq_bind]
      split
      · rfl
      · cases Buffering.named? mode size.toInt.toNat <;> rfl

end Files

theorem World.invoke_of_asked {w : World} {b : Builtin} {args : List Value} {u : UserdataId} {op : FileOperation}
    (asked : w.asked? b args = some (u, op)) : b.invoke args w = op.perform u w := by
  have serves : w.Serves (w.asked? b args) (b.invoke args w) := by
    cases b with
    | fileRead => exact Files.read_serves w args
    | fileWrite => exact Files.write_serves w args
    | fileSeek => exact Files.seek_serves w args
    | fileSetvbuf => exact Files.setvbuf_serves w args
    | fileFlush => exact Files.flush_serves w args
    | fileClose => exact Files.close_serves w args
    | _ => cases (asked?_eq_some.mp asked).2
  rw [asked] at serves
  exact serves

theorem World.open_of_asked {w : World} {b : Builtin} {args : List Value} {u : UserdataId} {op : FileOperation}
    (asked : w.asked? b args = some (u, op)) : ∃ h, w.file? u = some h ∧ h.closed = false := by
  have found := (asked?_eq_some.mp asked).1
  unfold openFile? at found
  split at found
  · split at found
    · next isOpen =>
      cases found
      cases there : w.file? u with
      | none => simp [there] at isOpen
      | some h => exact ⟨h, rfl, by simpa [there] using isOpen⟩
    · cases found
  · cases found

namespace World

/-- The world with the handle and the disk as work on them has left them. -/
def stored (w : World) (u : UserdataId) (t : Transfer) : World := { w.setFile u t.handle with disk := t.disk }

variable {w : World} {u : UserdataId} {h : Handle}

theorem inside_of_file? (found : w.file? u = some h) : u.index < w.objects.size := by
  by_contra outside
  have absent : w.userdata u = default := by simp [userdata, Array.getD_eq_getD_getElem?, Nat.le_of_not_lt outside]
  rw [file?, absent] at found
  cases found

theorem stored_file? (found : w.file? u = some h) (t : Transfer) : (w.stored u t).file? u = some t.handle := by
  simp [file?, userdata, stored, setFile, Array.getD_eq_getD_getElem?, inside_of_file? found]

theorem stored_file?_other {v : UserdataId} (other : v ≠ u) (t : Transfer) : (w.stored u t).file? v = w.file? v := by
  have apart : u.index ≠ v.index := by
    intro same
    exact other (by cases u; cases v; simp_all)
  simp [file?, userdata, stored, setFile, Array.getD_eq_getD_getElem?, apart]

theorem transferring_apply {α : Type} (found : w.file? u = some h) (collected : Bytes) (taken : Nat) (op : TransferM α) :
    Files.transferring u collected taken op w =
      (.ok (op { handle := h, disk := w.disk, collected, taken }),
        w.stored u (op { handle := h, disk := w.disk, collected, taken }).2) := by
  rw [Files.transferring, read_apply, found]
  rfl

end World

/-! What an attempt of each operation answers, from what the handle does. -/

section Attempts

variable {w : World} {u : UserdataId} {h : Handle}

open Files

theorem Files.writeOn_apply (found : w.file? u = some h) (data : Bytes) (taken : Nat) : writeOn ⟨u, data, taken⟩ w =
    match Transfer.write data { handle := h, disk := w.disk, taken } with
    | (.ok (), t) => (.ok (.ret [.userdata u]), w.stored u t)
    | (.error .wouldBlock, t) => (.ok (.suspend .blocked (.writing ⟨u, data, t.taken⟩)), w.stored u t)
    | (.error e, t) => (.error (deviceFailure e), w.stored u t) := by
  rw [writeOn, World.bind_apply, World.transferring_apply found]
  rcases Transfer.write data { handle := h, disk := w.disk, taken } with ⟨e | _, t⟩
  · cases e <;> rfl
  · rfl

/-- Seeking or changing the buffering, on the handle. -/
def Control.transfer : Control → TransferM Value
  | .seek target => do return Strings.intValue (← Transfer.seek target)
  | .buffering mode => do
    Transfer.setBuffering mode
    return .bool true

theorem Files.controlOn_eq (u : UserdataId) (c : Control) : controlOn u c =
    (transferring u [] 0 c.transfer >>= fun (result, _) =>
      match result with
      | .ok v => return .ret [v]
      | .error .wouldBlock => return .suspend .blocked (.control u c)
      | .error e => return .ret [.nil, .str e.message]) := by
  cases c <;> rfl

theorem Files.controlOn_apply (found : w.file? u = some h) (c : Control) : controlOn u c w =
    match c.transfer { handle := h, disk := w.disk } with
    | (.ok v, t) => (.ok (.ret [v]), w.stored u t)
    | (.error .wouldBlock, t) => (.ok (.suspend .blocked (.control u c)), w.stored u t)
    | (.error e, t) => (.ok (.ret [.nil, .str e.message]), w.stored u t) := by
  rw [controlOn_eq, World.bind_apply, World.transferring_apply found]
  rcases c.transfer { handle := h, disk := w.disk } with ⟨e | _, t⟩
  · cases e <;> rfl
  · rfl

theorem Files.finishOn_apply (found : w.file? u = some h) (closing : Bool) : finishOn closing u w =
    match (if closing then Transfer.close else Transfer.flush) { handle := h, disk := w.disk } with
    | (.ok (), t) => (.ok (.ret [if closing then .bool true else .userdata u]), w.stored u t)
    | (.error .wouldBlock, t) => (.ok (.suspend .blocked (.file u)), w.stored u t)
    | (.error e, t) => (.error (deviceFailure e), w.stored u t) := by
  rw [finishOn, World.bind_apply, World.transferring_apply found]
  rcases (if closing then Transfer.close else Transfer.flush) { handle := h, disk := w.disk } with ⟨e | _, t⟩
  · cases e <;> rfl
  · rfl

end Attempts

/-- Carries out what an operation on the world has answered. -/
def Core.performed (c : Core) (f : FunctionId) (w : Window) : Except Failure Action × World → Except Failure Move × Core
  | (.ok a, v) => a.perform f w { c with world := v }
  | (.error e, v) => (.error e, { c with world := v })

theorem Core.onWorld_perform (op : WorldM Action) (f : FunctionId) (w : Window) (c : Core) :
    (Core.onWorld op >>= fun a => a.perform f w) c = c.performed f w (op c.world) := by
  have ran : Core.onWorld op c = ((op c.world).1, { c with world := (op c.world).2 }) := rfl
  rw [Core.bind_apply, ran]
  rcases op c.world with ⟨_ | _, _⟩ <;> rfl

section Calls

variable (b : Builtin) (file : UserdataId) (formats : List ReadFormat) (f : FunctionId) (w : Window) (c : Core)

theorem Callable.invoke_builtin :
    (builtin b).invoke f w c = c.performed f w (b.invoke (w.values c.context.stack) c.world) :=
  Core.onWorld_perform _ f w c

theorem Callable.resume_builtin (s : Saved) :
    (builtin b).resume f w s c = c.performed f w (b.resume s (w.values c.context.stack) c.world) :=
  Core.onWorld_perform _ f w c

theorem Callable.invoke_lines :
    (lines file formats).invoke f w c = c.performed f w (Files.nextItems file formats c.world) :=
  Core.onWorld_perform _ f w c

theorem Callable.resume_lines (r : ReadingItems) : (lines file formats).resume f w (.reading r) c =
    c.performed f w (Files.readItems r.file r.results r.collected r.formats c.world) :=
  Core.onWorld_perform _ f w c

end Calls

/-- Nothing but handles and the disk differs. -/
structure World.Beside (w v : World) : Prop where
  functions : v.functions = w.functions
  io : v.io = w.io

theorem World.Beside.trans {u v w : World} (first : u.Beside v) (rest : v.Beside w) : u.Beside w :=
  ⟨rest.functions.trans first.functions, rest.io.trans first.io⟩

theorem World.Beside.callable {w v : World} (beside : w.Beside v) (f : FunctionId) : v.callable f = w.callable f := by
  rw [World.callable, World.callable, beside.functions]

theorem World.stored_beside (w : World) (u : UserdataId) (t : Transfer) : w.Beside (w.stored u t) := ⟨rfl, rfl⟩

namespace ReadingItems

/-- What has been collected can begin the item that comes next. -/
def Begun (r : ReadingItems) : Prop :=
  match r.formats with
  | [] => r.collected = []
  | format :: _ => format.Partial r.collected

theorem begun_nil (file : UserdataId) (formats : List ReadFormat) (results : List Value) :
    Begun ⟨file, formats, results, []⟩ := by
  cases formats with
  | nil => rfl
  | cons format formats => exact ReadFormat.Partial.nil format

/-- The results when all is read that still can be, and the bytes that are left then. -/
def outcome (r : ReadingItems) (bytes : Bytes) : List Value × Bytes :=
  let (values, rest) := ReadFormat.takeEach r.formats (r.collected ++ bytes)
  (r.results ++ values, rest)

end ReadingItems

namespace Feed

/-- The handle has these bytes to read, ahead and from its device, with some blocks on the way. -/
def Supplies (feed : Feed) (w : World) (u : UserdataId) (bytes : Bytes) (blocks : Nat) : Prop :=
  ∃ h left, w.file? u = some h ∧ feed.holds h w.disk left blocks ∧ bytes = h.ahead ++ left

/-- What an attempt to read items comes to: all that is wanted, or a block after which the same is
still to come. -/
inductive Attempt (feed : Feed) (w : World) (r : ReadingItems) (bytes : Bytes) (blocks : Nat) :
    Except Failure Action × World → Prop where
  | finished {v : World} {values : List Value} {rest : Bytes} (beside : w.Beside v)
      (outcome : r.outcome bytes = (values, rest)) (still : feed.Supplies v r.file rest blocks) :
      Attempt feed w r bytes blocks (.ok (.ret values), v)
  | blocked {v : World} {next : ReadingItems} {left : Bytes} {fewer : Nat} (beside : w.Beside v)
      (file : next.file = r.file) (begun : next.Begun) (one : blocks = fewer + 1)
      (outcome : next.outcome left = r.outcome bytes) (still : feed.Supplies v r.file left fewer) :
      Attempt feed w r bytes blocks (.ok (.suspend .blocked (.reading next)), v)

variable {feed : Feed} {w : World} {bytes : Bytes} {blocks : Nat}

theorem Attempt.after {v : World} {r next : ReadingItems} {left : Bytes} {result : Except Failure Action × World}
    (attempt : feed.Attempt v next left blocks result) (beside : w.Beside v) (file : next.file = r.file)
    (same : next.outcome left = r.outcome bytes) : feed.Attempt w r bytes blocks result := by
  cases attempt with
  | finished besides outcome still =>
    rw [file] at still
    exact .finished (beside.trans besides) (same.symm.trans outcome) still
  | blocked besides files begun one outcome still =>
    rw [file] at files still
    exact .blocked (beside.trans besides) files begun one (outcome.trans same) still

theorem readItems_attempt {u : UserdataId} {formats : List ReadFormat} {results : List Value} {collected : Bytes}
    (supplies : feed.Supplies w u bytes blocks) (begun : ReadingItems.Begun ⟨u, formats, results, collected⟩) :
    feed.Attempt w ⟨u, formats, results, collected⟩ bytes blocks (Files.readItems u results collected formats w) := by
  induction formats generalizing w results collected bytes with
  | nil =>
    obtain rfl : collected = [] := begun
    refine .finished ⟨rfl, rfl⟩ ?_ supplies
    simp [ReadingItems.outcome, ReadFormat.takeEach]
  | cons format formats ih =>
    obtain ⟨h, left, found, holds, rfl⟩ := supplies
    have reads := feed.readItem_reads format (t := ⟨h, w.disk, collected, 0⟩) holds begun
    rw [Files.readItems, World.bind_apply, World.transferring_apply found]
    generalize Transfer.readItem format ⟨h, w.disk, collected, 0⟩ = result at reads
    cases reads with
    | @item v after rest taken still =>
      have stored := World.stored_file? found after
      have supplies : feed.Supplies (w.stored u after) u (after.handle.ahead ++ rest) blocks :=
        ⟨after.handle, rest, stored, still, rfl⟩
      simp only
      cases isNil : v.isNil with
      | true =>
        refine .finished (w.stored_beside u after) ?_ supplies
        simp [ReadingItems.outcome, ReadFormat.takeEach, taken, isNil]
      | false =>
        refine (ih supplies (ReadingItems.begun_nil u formats _)).after (w.stored_beside u after) rfl ?_
        simp [ReadingItems.outcome, ReadFormat.takeEach, taken, isNil]
    | @blocked after rest fewer one begun same still =>
      have stored := World.stored_file? found after
      refine .blocked (w.stored_beside u after) rfl begun one ?_ ⟨after.handle, rest, stored, still, rfl⟩
      simp [ReadingItems.outcome, ReadFormat.takeEach, same]

end Feed

end CoopScript
