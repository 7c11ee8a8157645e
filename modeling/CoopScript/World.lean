import CoopScript.Callable

/-! The objects that values refer to, with the disk and the log: everything that calls share
besides a register stack and a budget. -/

namespace CoopScript

inductive Content where
  | plain
  | file (h : Handle)

structure Userdata where
  content : Content
  metatable : Option TableId

instance : Inhabited Userdata := ⟨⟨.plain, none⟩⟩

/-- The handles that the io functions use, and the methods they forward to. -/
structure IoState where
  metatable : TableId
  write : FunctionId
  read : FunctionId
  flush : FunctionId
  close : FunctionId
  input : UserdataId
  output : UserdataId
  error : UserdataId
  deriving Inhabited

structure World where
  tables : Array Table := #[]
  functions : Array Callable := #[]
  objects : Array Userdata := #[]
  disk : Disk := {}
  io : IoState := default
  log : List String := []
  deriving Inhabited

/-- Operations on a world. The world after a failure is part of the outcome. -/
abbrev WorldM := ExceptT Failure (StateM World)

namespace World

def table (w : World) (t : TableId) : Table := w.tables.getD t.index {}

def callable (w : World) (f : FunctionId) : Callable := w.functions.getD f.index default

def functionName (w : World) (f : FunctionId) : String := (w.callable f).name

def userdata (w : World) (u : UserdataId) : Userdata := w.objects.getD u.index default

def file? (w : World) (u : UserdataId) : Option Handle :=
  match (w.userdata u).content with
  | .file h => some h
  | .plain => none

def addTable (w : World) (t : Table) : TableId × World :=
  (⟨w.tables.size⟩, { w with tables := w.tables.push t })

def addFunction (w : World) (c : Callable) : FunctionId × World :=
  (⟨w.functions.size⟩, { w with functions := w.functions.push c })

def addUserdata (w : World) (u : Userdata) : UserdataId × World :=
  (⟨w.objects.size⟩, { w with objects := w.objects.push u })

/-- Adds a handle with the methods of handles. -/
def addFile (w : World) (h : Handle) : UserdataId × World :=
  w.addUserdata ⟨.file h, some w.io.metatable⟩

def setTable (w : World) (t : TableId) (contents : Table) : World :=
  { w with tables := w.tables.setIfInBounds t.index contents }

def setCallable (w : World) (f : FunctionId) (c : Callable) : World :=
  { w with functions := w.functions.setIfInBounds f.index c }

def setFile (w : World) (u : UserdataId) (h : Handle) : World :=
  { w with
    objects := w.objects.setIfInBounds u.index { w.userdata u with content := .file h } }

def metatable? (w : World) : Value → Option TableId
  | .table t => (w.table t).metatable
  | .userdata u => (w.userdata u).metatable
  | _ => none

/-- The handler of a value for an event. -/
def metamethod? (w : World) (v : Value) (event : String) : Option Value :=
  match w.metatable? v with
  | none => none
  | some t =>
    let handler := (w.table t).getText event
    if handler.isNil then none else some handler

/-- The text of a value when no handler supplies one. -/
def defaultText (w : World) (v : Value) : String :=
  match w.metamethod? v "__name" with
  | some (.str name) => name ++ ": " ++ v.address
  | _ => v.display

/-- Runs an operation of a handle against the disk and keeps what it leaves behind. -/
def transfer {α : Type} (w : World) (u : UserdataId) (h : Handle) (collected : Bytes)
    (taken : Nat) (op : TransferM α) : Except DeviceError α × Transfer × World :=
  let (result, t) := op.run { handle := h, disk := w.disk, collected, taken }
  (result, t, { w.setFile u t.handle with disk := t.disk })

end World

end CoopScript
