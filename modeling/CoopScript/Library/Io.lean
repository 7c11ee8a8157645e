import CoopScript.Library.Files

/-! The io functions: opening files, the default handles, and forwarding to them. -/

namespace CoopScript

namespace Io

open Arguments

inductive Default where
  | input
  | output
  deriving DecidableEq

def default (w : World) : Default → UserdataId
  | .input => w.io.input
  | .output => w.io.output

def setDefault (w : World) (which : Default) (u : UserdataId) : World :=
  match which with
  | .input => { w with io := { w.io with input := u } }
  | .output => { w with io := { w.io with output := u } }

/-- Forwards a call to a method of a default handle, which becomes the first argument. -/
def forward (which : Default) (method : IoState → FunctionId) : WorldM Action := do
  let w ← getThe World
  return .forward (method w.io) (some (.userdata (default w which))) .unit

/-- Closes the handle that is given, or the default output. -/
def close (args : List Value) : WorldM Action := do
  let w ← getThe World
  let given :=
    match args with
    | .userdata u :: _ => (w.file? u).isSome
    | _ => false
  let receiver := if given then none else some (.userdata (default w .output))
  return .forward w.io.close receiver .unit

/-- Opens a file as a new handle. -/
def openHandle (mode : OpenMode) (name : String) : WorldM (Except DeviceError UserdataId) := do
  let w ← getThe World
  match mode.openFile w.disk name with
  | (.ok descriptor, disk) =>
    let (u, w) := { w with disk }.addFile (Handle.ofFile descriptor)
    set w
    return .ok u
  | (.error e, disk) =>
    set { w with disk }
    return .error e

def openFailure (name : String) (e : DeviceError) : String := name ++ ": " ++ e.message

def openNamed (args : List Value) : WorldM Action := do
  let (name, mode) ← raising <| reading "open" args do
    let name ← nextText
    let mode := (← optText).getD "r"
    match OpenMode.named? mode with
    | some mode => return (name, mode)
    | none => throw ((← get).bad 2 .invalidMode)
  match ← openHandle mode name with
  | .ok u => return .ret [.userdata u]
  | .error e => return .ret [.nil, .str (openFailure name e)]

/-- Gives a default handle, after changing it to the handle or the file that is named. -/
def select (which : Default) (args : List Value) : WorldM Action := do
  let name := match which with | .input => "input" | .output => "output"
  let mode := match which with | .input => OpenMode.reading | .output => OpenMode.writing
  let v := args.headD .nil
  let byName : WorldM Unit := do
    match v.asText? with
    | none => throw (.script (.badArgument 1 name (.expected "FILE*" (some v.kind))))
    | some path =>
      match ← openHandle mode path with
      | .ok u => modify fun w => setDefault w which u
      | .error e => throw (.script (.raised (openFailure path e)))
  match v with
  | .nil => pure ()
  | .userdata u =>
    if ((← getThe World).file? u).isSome then modify fun w => setDefault w which u else byName
  | _ => byName
  return .ret [.userdata (default (← getThe World) which)]

def kind (args : List Value) : WorldM Action := do
  let v ← raising <| reading "type" args nextAny
  match v with
  | .userdata u =>
    match (← getThe World).file? u with
    | some h => return .ret [.str (if h.closed then "closed file" else "file")]
    | none => return .ret [.nil]
  | _ => return .ret [.nil]

end Io

end CoopScript
