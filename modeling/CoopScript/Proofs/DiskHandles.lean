import CoopScript.Proofs.PlainFiles

/-! Handles on the disk. A handle that is opened on a file and used by its methods answers every
call as a file without buffers does that goes through the same calls. -/

namespace CoopScript

namespace PlainFile

/-- What a call on a file comes to: results, or nil and a text, or an error. -/
inductive Answer where
  | values (results : List Value)
  | refused
  | raised

/-- The call answers like that, whatever the text of an error is. -/
inductive Answer.Agrees : Answer → Except Failure Action → Prop where
  | values (results : List Value) : Agrees (.values results) (.ok (.ret results))
  | refused (text : String) : Agrees .refused (.ok (.ret [.nil, .str text]))
  | raised (e : ScriptError) : Agrees .raised (.error (.script e))

/-- What each operation answers, and what it does to the file. -/
def perform (u : UserdataId) (file : PlainFile) : FileOperation → Answer × PlainFile
  | .read formats =>
    if file.readable then
      let (values, left) := ReadFormat.takeEach formats file.rest
      (.values values, file.leaving left)
    else (.raised, file)
  | .write data => if file.writable then (.values [.userdata u], file.written data) else (.raised, file)
  | .control (.seek target) =>
    match file.sought target with
    | some p => (.values [Strings.intValue p], { file with cursor := p })
    | none => (.refused, file)
  | .control (.buffering _) => (.values [.bool true], file)
  | .flush => (.values [.userdata u], file)
  | .close => (.values [.bool true], file)

end PlainFile

/-- The operations that leave nothing to be written to the disk. -/
def FileOperation.settles : FileOperation → Bool
  | .flush | .close | .control _ => true
  | .read _ | .write _ => false

/-- The name and the mode that the arguments ask to open. -/
def Io.opening? (args : List Value) : Option (String × OpenMode) := do
  let name ← (args[0]?.getD Value.nil).asText?
  let mode ← Builtin.optional Value.asText? "r" (args[1]?.getD Value.nil)
  let mode ← OpenMode.named? mode
  return (name, mode)

/-- The file that is opened in a mode. -/
def OpenMode.file (mode : OpenMode) (disk : Disk) (name : String) : PlainFile where
  bytes := if mode.truncate then [] else disk.contents name
  readable := mode.read
  writable := mode.write || mode.append
  append := mode.append

/-- A handle that is opened on a file and used, beside the file without buffers on which the same is
done. What else happens changes neither the handle nor the contents of the file. -/
inductive FileHistory (u : UserdataId) (name : String) : World → PlainFile → Prop where
  | opened {w v : World} {args : List Value} {mode : OpenMode} (asked : Io.opening? args = some (name, mode))
      (invoked : Builtin.ioOpen.invoke args w = (.ok (.ret [.userdata u]), v)) :
      FileHistory u name v (mode.file w.disk name)
  | performed {w : World} {file : PlainFile} (before : FileHistory u name w file) (fits : file.Fits) {b : Builtin}
      {args : List Value} {op : FileOperation} (asked : w.asked? b args = some (u, op)) :
      FileHistory u name (b.invoke args w).2 (file.perform u op).2
  | meanwhile {w v : World} {file : PlainFile} (before : FileHistory u name w file) (handle : v.file? u = w.file? u)
      (contents : v.disk.contents name = w.disk.contents name) : FileHistory u name v file

/-- The handle stands for the file as long as it is open. -/
structure World.Presents (w : World) (u : UserdataId) (name : String) (file : PlainFile) (h : Handle) : Prop where
  found : w.file? u = some h
  apart : h.ahead = [] ∨ h.pending = []
  stands : h.closed = false → h.StandsFor w.disk name file

namespace Handle.StandsFor

variable {h : Handle} {disk other : Disk} {name : String} {file : PlainFile}

theorem apart (stands : h.StandsFor disk name file) : h.ahead = [] ∨ h.pending = [] := by
  obtain @⟨_, _, _, _, _, _, _, _, apart, _⟩ := stands
  exact apart

theorem delivers (stands : h.StandsFor disk name file) :
    ∃ left, file.rest = h.ahead ++ left ∧ file.Delivers name h disk left := by
  have whole := stands
  obtain @⟨d, base, channel, named, opened, ordinary, stands, same, apart, able⟩ := stands
  obtain ⟨left, rest⟩ : ∃ left, file.rest = h.ahead ++ left := by
    rcases apart with nothing | none
    · exact ⟨file.rest, by rw [nothing, List.nil_append]⟩
    · rw [none] at same
      obtain rfl : base = file := same
      exact ⟨_, stands.rest⟩
  refine ⟨left, rest, rest ▸ List.suffix_rfl, ?_⟩
  rwa [← rest, PlainFile.leaving_rest_self]

theorem of_contents (stands : h.StandsFor disk name file) (same : other.contents name = disk.contents name) :
    h.StandsFor other name file := by
  obtain @⟨d, base, channel, named, opened, ordinary, stands, written, apart, able⟩ := stands
  subst named
  refine .intro channel rfl opened ordinary ?_ written apart able
  exact ⟨same.trans stands.bytes, stands.readable, stands.writable, stands.append, stands.cursor, stands.rest,
    stands.unread, stands.within⟩

end Handle.StandsFor

namespace World

variable {w : World} {u : UserdataId} {h : Handle} {name : String} {file next : PlainFile}

theorem stored_presents (found : w.file? u = some h) {t : Transfer} (stands : t.handle.StandsFor t.disk name next) :
    (w.stored u t).Presents u name next t.handle :=
  ⟨stored_file? found t, stands.apart, fun _ => stands⟩

/-- What an operation on a handle is to come to, for the file that it stands for. -/
structure Refines (u : UserdataId) (name : String) (file : PlainFile) (op : FileOperation)
    (outcome : Except Failure Action × World) : Prop where
  answer : (file.perform u op).1.Agrees outcome.1
  disk : op.settles = true → outcome.2.disk.contents name = (file.perform u op).2.bytes
  still : ∃ h, outcome.2.Presents u name (file.perform u op).2 h

theorem read_refines (found : w.file? u = some h) (stands : h.StandsFor w.disk name file) {formats : List ReadFormat}
    (asked : formats ≠ []) : Refines u name file (.read formats) (FileOperation.perform u (.read formats) w) := by
  cases readable : file.readable with
  | true =>
    obtain ⟨left, rest, delivers⟩ := stands.delivers
    have supplies : (Feed.file name file readable).Supplies w u file.rest 0 := ⟨h, left, found, ⟨rfl, delivers⟩, rest⟩
    have attempt := Feed.readItems_attempt supplies (ReadingItems.begun_nil u formats [])
    have performed : file.perform u (.read formats) =
        (.values (ReadFormat.takeEach formats file.rest).1, file.leaving (ReadFormat.takeEach formats file.rest).2) := by
      simp only [PlainFile.perform, readable, if_true]
    change Refines u name file (.read formats) (Files.readItems u [] [] formats w)
    generalize Files.readItems u [] [] formats w = outcome at attempt
    cases attempt with
    | @finished v values rest _ outcome still =>
      obtain ⟨after, left, found, ⟨_, delivers⟩, rfl⟩ := still
      have taken : ReadFormat.takeEach formats file.rest = (values, after.ahead ++ left) := by
        simpa [ReadingItems.outcome] using outcome
      rw [taken] at performed
      refine ⟨?_, by simp [FileOperation.settles], after, found, delivers.stands.apart, ?_⟩ <;> rw [performed]
      · exact .values _
      · exact fun _ => delivers.stands
    | blocked _ _ _ one => cases one
  | false =>
    have performed : file.perform u (.read formats) = (.raised, file) := by
      simp only [PlainFile.perform, readable, Bool.false_eq_true, if_false]
    obtain ⟨format, formats, rfl⟩ := List.exists_cons_of_ne_nil asked
    obtain ⟨after, refused, still⟩ :=
      Transfer.readItem_unreadable (t := { handle := h, disk := w.disk }) stands readable rfl format
    have outcome : FileOperation.perform u (.read (format :: formats)) w =
        (.error (Files.deviceFailure .notReadable), w.stored u after) := by
      change Files.readItems u [] [] (format :: formats) w = _
      rw [Files.readItems, bind_apply, transferring_apply found, refused]
      rfl
    rw [outcome]
    refine ⟨?_, by simp [FileOperation.settles], after.handle, ?_⟩ <;> rw [performed]
    · exact .raised _
    · exact stored_presents found still

theorem write_refines (found : w.file? u = some h) (stands : h.StandsFor w.disk name file) (fits : file.Fits)
    (data : Bytes) : Refines u name file (.write data) (FileOperation.perform u (.write data) w) := by
  change Refines u name file (.write data) (Files.writeOn { file := u, data } w)
  rw [Files.writeOn_apply found]
  cases writable : file.writable with
  | true =>
    obtain ⟨after, wrote, still⟩ :=
      Transfer.write_stands (t := { handle := h, disk := w.disk }) stands fits writable rfl data
    rw [wrote]
    refine ⟨?_, by simp [FileOperation.settles], after.handle, ?_⟩ <;> simp only [PlainFile.perform, writable, if_true]
    · exact .values _
    · exact stored_presents found still
  | false =>
    rw [Transfer.write_refused (t := { handle := h, disk := w.disk }) stands writable data]
    refine ⟨?_, by simp [FileOperation.settles], h, ?_⟩ <;>
      simp only [PlainFile.perform, writable, Bool.false_eq_true, if_false]
    · exact .raised _
    · exact stored_presents (t := { handle := h, disk := w.disk }) found stands

theorem control_refines (found : w.file? u = some h) (stands : h.StandsFor w.disk name file) (fits : file.Fits)
    (c : Control) : Refines u name file (.control c) (FileOperation.perform u (.control c) w) := by
  change Refines u name file (.control c) (Files.controlOn u c w)
  rw [Files.controlOn_apply found]
  cases c with
  | buffering mode =>
    obtain ⟨after, set, still, disk⟩ :=
      Transfer.setBuffering_stands (t := { handle := h, disk := w.disk }) stands mode
    have ran : (Control.buffering mode).transfer { handle := h, disk := w.disk } = (.ok (.bool true), after) := by
      simp only [Control.transfer, Transfer.bind_apply, set]
      rfl
    rw [ran]
    exact ⟨.values _, fun _ => disk, _, stored_presents found still⟩
  | seek target =>
    have sought := Transfer.seek_sought (t := { handle := h, disk := w.disk }) stands fits target
    simp only [Control.transfer, Transfer.bind_apply]
    generalize Transfer.seek target { handle := h, disk := w.disk } = result at sought
    cases sought with
    | @moved p after place still disk =>
      have performed : file.perform u (.control (.seek target)) =
          (.values [Strings.intValue p], { file with cursor := p }) := by simp only [PlainFile.perform, place]
      refine ⟨?_, ?_, after.handle, ?_⟩ <;> rw [performed]
      · exact .values _
      · exact fun _ => disk
      · exact stored_presents found still
    | @refused e after none other still disk =>
      have performed : file.perform u (.control (.seek target)) = (.refused, file) := by
        simp only [PlainFile.perform, none]
      have goes (text : String) : Refines u name file (.control (.seek target))
          (.ok (.ret [.nil, .str text]), w.stored u after) := by
        refine ⟨?_, ?_, after.handle, ?_⟩ <;> rw [performed]
        · exact .refused _
        · exact fun _ => disk
        · exact stored_presents found still
      cases e with
      | wouldBlock => exact absurd rfl other
      | _ => exact goes _

theorem flush_refines (found : w.file? u = some h) (stands : h.StandsFor w.disk name file) :
    Refines u name file .flush (FileOperation.perform u .flush w) := by
  obtain ⟨after, flushed, still, disk, _⟩ := Transfer.flush_stands (t := { handle := h, disk := w.disk }) stands
  have outcome : FileOperation.perform u .flush w = (.ok (.ret [.userdata u]), w.stored u after) := by
    change Files.finishOn false u w = _
    rw [Files.finishOn_apply found]
    simp only [Bool.false_eq_true, if_false, flushed]
  rw [outcome]
  exact ⟨.values _, fun _ => disk, after.handle, stored_presents found still⟩

theorem close_refines (found : w.file? u = some h) (stands : h.StandsFor w.disk name file) :
    Refines u name file .close (FileOperation.perform u .close w) := by
  obtain ⟨after, flushed, still, disk, none⟩ := Transfer.flush_stands (t := { handle := h, disk := w.disk }) stands
  have closed : Transfer.close { handle := h, disk := w.disk } =
      (.ok (), { after with handle := { after.handle with ahead := [], closed := true } }) := by
    rw [Transfer.close, Transfer.bind_apply, flushed]
    rfl
  have ordinary : (w.file? u).any (·.standard) = false := by
    obtain @⟨_, _, _, _, _, ordinary⟩ := stands
    simp [found, ordinary]
  have outcome : FileOperation.perform u .close w = (.ok (.ret [.bool true]),
      w.stored u { after with handle := { after.handle with ahead := [], closed := true } }) := by
    rw [FileOperation.perform, read_apply, ordinary]
    change Files.finishOn true u w = _
    rw [Files.finishOn_apply found]
    simp only [if_true, closed]
  rw [outcome]
  refine ⟨.values _, fun _ => disk, _, stored_file? found _, .inl rfl, ?_⟩
  simp

theorem perform_refines (found : w.file? u = some h) (stands : h.StandsFor w.disk name file) (fits : file.Fits)
    (op : FileOperation) (asked : ∀ formats, op = .read formats → formats ≠ []) :
    Refines u name file op (op.perform u w) := by
  cases op with
  | read formats => exact read_refines found stands (asked formats rfl)
  | write data => exact write_refines found stands fits data
  | control c => exact control_refines found stands fits c
  | flush => exact flush_refines found stands
  | close => exact close_refines found stands

theorem addFile_file?_new (w : World) (h : Handle) : (w.addFile h).2.file? (w.addFile h).1 = some h := by
  simp [file?, userdata, addFile, addUserdata, Array.getD_eq_getD_getElem?]

theorem formats_of_asked {b : Builtin} {args : List Value} {formats : List ReadFormat}
    (asked : w.asked? b args = some (u, .read formats)) : formats ≠ [] := by
  have named := (asked?_eq_some.mp asked).2
  cases b with
  | fileRead =>
    obtain ⟨read, _, same⟩ := Option.map_eq_some_iff.mp named
    cases same
    split
    · simp
    · next some => simpa using some
  | fileWrite | fileSeek | fileSetvbuf => simp [Builtin.operation?, Option.bind_eq_some_iff] at named
  | _ => cases named

theorem Presents.refines (presents : w.Presents u name file h) (fits : file.Fits) {b : Builtin} {args : List Value}
    {op : FileOperation} (asked : w.asked? b args = some (u, op)) : Refines u name file op (b.invoke args w) := by
  obtain ⟨_, there, opened⟩ := open_of_asked asked
  cases presents.found.symm.trans there
  rw [invoke_of_asked asked]
  refine perform_refines presents.found (presents.stands opened) fits op ?_
  rintro formats rfl
  exact formats_of_asked asked

end World

theorem OpenMode.openFile_stands {mode : OpenMode} {disk after : Disk} {name : String} {d : Descriptor}
    (opened : mode.openFile disk name = (.ok d, after)) :
    (Handle.ofFile d).StandsFor after name (mode.file disk name) := by
  obtain ⟨rfl, contents⟩ : d = { name, readable := mode.read, writable := mode.write || mode.append, append := mode.append } ∧
      after.contents name = (mode.file disk name).bytes := by
    unfold openFile at opened
    simp only at opened
    repeat' split at opened
    all_goals cases opened
    · next truncates => exact ⟨rfl, by simp [OpenMode.file, truncates, Disk.contents_put]⟩
    · next keeps => exact ⟨rfl, by simp [OpenMode.file, keeps]⟩
    · next absent _ =>
      have nothing : disk.contents name = [] := by rw [Disk.contents, absent]; rfl
      exact ⟨rfl, by simp [OpenMode.file, Disk.contents_put, nothing]⟩
  refine .intro rfl rfl rfl rfl ?_ (PlainFile.written_nil _) (.inl rfl) (fun some => absurd rfl some)
  refine ⟨contents, rfl, rfl, rfl, rfl, rfl, fun _ => rfl, ?_⟩
  have positive : (0 : Int) ≤ PlainFile.lastPosition := by decide
  simp only
  omega

namespace Io

open Arguments

/-- The mode that a text names, or the error for it. -/
private def modeOf (name mode : String) : ArgumentsM (String × OpenMode) := do
  match OpenMode.named? mode with
  | some mode => return (name, mode)
  | none => throw ((← get).bad 2 .invalidMode)

private def openArguments : ArgumentsM (String × OpenMode) := do
  let name ← nextText
  let mode ← optText
  modeOf name (mode.getD "r")

private theorem openArguments_toOption (args : List Value) :
    (reading "open" args openArguments).toOption = opening? args := by
  have second : (Arguments.advanced { function := "open", values := args }).upcoming = args[1]?.getD .nil := rfl
  have first : (Arguments.upcoming { function := "open", values := args }) = args[0]?.getD .nil := rfl
  rw [reading_toOption, openArguments]
  simp only [toOption_bind, nextText_toOption, optText_toOption, first, opening?, Files.optional_getD]
  cases (args[0]?.getD Value.nil).asText? with
  | none => rfl
  | some name =>
    simp only [Option.map_some, Option.bind_some, second, Option.bind_eq_bind]
    cases Builtin.optional (fun v => v.asText?.map some) none (args[1]?.getD .nil) with
    | none => rfl
    | some mode =>
      simp only [Option.map_some, Option.bind_some, modeOf]
      cases OpenMode.named? (mode.getD "r") <;> rfl

theorem openHandle_apply (mode : OpenMode) (name : String) (w : World) : openHandle mode name w =
    match mode.openFile w.disk name with
    | (.ok d, disk) => (.ok (.ok ({ w with disk }.addFile (Handle.ofFile d)).1), ({ w with disk }.addFile (Handle.ofFile d)).2)
    | (.error e, disk) => (.ok (.error e), { w with disk }) := by
  rw [openHandle, World.read_apply]
  rcases mode.openFile w.disk name with ⟨_ | _, _⟩ <;> rfl

theorem openNamed_of_opening {args : List Value} {name : String} {mode : OpenMode}
    (asked : opening? args = some (name, mode)) (w : World) : Builtin.ioOpen.invoke args w =
      match mode.openFile w.disk name with
      | (.ok d, disk) =>
        (.ok (.ret [.userdata ({ w with disk }.addFile (Handle.ofFile d)).1]), ({ w with disk }.addFile (Handle.ofFile d)).2)
      | (.error e, disk) => (.ok (.ret [.nil, .str (openFailure name e)]), { w with disk }) := by
  rw [← openArguments_toOption] at asked
  have read : reading "open" args openArguments = .ok (name, mode) := by
    generalize reading "open" args openArguments = result at asked
    cases result with
    | error e => cases asked
    | ok a =>
      cases asked
      rfl
  have ran : raising (Except.ok (name, mode)) w = (.ok (name, mode), w) := rfl
  change (raising (reading "open" args openArguments) >>= _) w = _
  rw [read, World.bind_apply, ran]
  simp only [World.bind_apply, openHandle_apply]
  rcases mode.openFile w.disk name with ⟨_ | _, _⟩ <;> rfl

end Io

instance (file : PlainFile) : Decidable file.Fits := inferInstanceAs (Decidable (_ ≤ _))

namespace FileHistory

variable {u : UserdataId} {name : String} {w : World} {file : PlainFile}

theorem presents (history : FileHistory u name w file) : ∃ h, w.Presents u name file h := by
  induction history with
  | @opened w v args mode asked invoked =>
    rw [Io.openNamed_of_opening asked] at invoked
    rcases opens : mode.openFile w.disk name with ⟨e | d, disk⟩ <;> rw [opens] at invoked
    · cases invoked
    · cases invoked
      have stands := OpenMode.openFile_stands opens
      exact ⟨_, World.addFile_file?_new _ _, stands.apart, fun _ => stands⟩
  | performed before fits asked ih =>
    obtain ⟨h, presents⟩ := ih
    exact (presents.refines fits asked).still
  | meanwhile before handle contents ih =>
    obtain ⟨h, found, apart, stands⟩ := ih
    exact ⟨h, handle.trans found, apart, fun opened => (stands opened).of_contents contents⟩

/-- A handle that is opened on a file answers every call on it like a file without buffers, and after
each flush, seek or close the file on the disk is that file. It never has bytes ahead and pending
bytes at once. -/
theorem unbuffered (history : FileHistory u name w file) :
    (∃ h, w.file? u = some h ∧ (h.ahead = [] ∨ h.pending = [])) ∧
    ∀ b args op, w.asked? b args = some (u, op) → file.Fits →
      (file.perform u op).1.Agrees (b.invoke args w).1 ∧
      (op.settles = true → (b.invoke args w).2.disk.contents name = (file.perform u op).2.bytes) := by
  obtain ⟨h, presents⟩ := history.presents
  refine ⟨⟨h, presents.found, presents.apart⟩, ?_⟩
  intro b args op asked fits
  have refines := presents.refines fits asked
  exact ⟨refines.answer, refines.disk⟩

private def start : World := { disk := { files := [("log", [97, 98, 10, 99, 100])] } }

private def unread : World := (Builtin.ioOpen.invoke [.str "log", .str "r+"] start).2

private def halfRead : World := (Builtin.fileRead.invoke [.userdata ⟨0⟩, .str "l"] unread).2

private def changed : World := (Builtin.fileWrite.invoke [.userdata ⟨0⟩, .str "X"] halfRead).2

/-- A line is read. What was read ahead is given back for the write, which is pending until the file
is flushed. -/
theorem unbuffered_changed : ∃ file, FileHistory ⟨0⟩ "log" changed file ∧
    (file.perform ⟨0⟩ .flush).1.Agrees (Builtin.fileFlush.invoke [.userdata ⟨0⟩] changed).1 ∧
    changed.disk.contents "log" = [97, 98, 10, 99, 100] ∧
    (Builtin.fileFlush.invoke [.userdata ⟨0⟩] changed).2.disk.contents "log" = [97, 98, 10, 88, 100] := by
  have asked : Io.opening? [.str "log", .str "r+"] = some ("log", { read := true, write := true }) := by decide +kernel
  have reads : unread.asked? .fileRead [.userdata ⟨0⟩, .str "l"] = some (⟨0⟩, .read [.line false]) :=
    World.asked?_eq_some.mpr ⟨by decide +kernel, by cbv⟩
  have writes : halfRead.asked? .fileWrite [.userdata ⟨0⟩, .str "X"] = some (⟨0⟩, .write [88]) :=
    World.asked?_eq_some.mpr ⟨by decide +kernel, by cbv⟩
  have flushes : changed.asked? .fileFlush [.userdata ⟨0⟩] = some (⟨0⟩, .flush) :=
    World.asked?_eq_some.mpr ⟨by decide +kernel, rfl⟩
  have fresh : FileHistory ⟨0⟩ "log" unread _ := .opened (w := start) asked (by cbv)
  have reading : FileHistory ⟨0⟩ "log" halfRead _ := fresh.performed (by decide +kernel) reads
  have writing : FileHistory ⟨0⟩ "log" changed _ := reading.performed (by decide +kernel) writes
  obtain ⟨answer, disk⟩ := writing.unbuffered.2 .fileFlush [.userdata ⟨0⟩] .flush flushes (by decide +kernel)
  refine ⟨_, writing, answer, by decide +kernel, (disk rfl).trans (by decide +kernel)⟩

end FileHistory

end CoopScript
