import CoopScript.World

/-! Functions on handles. One that a device blocks suspends with what it has done so far and
goes on from there when it is resumed. -/

namespace CoopScript

/-- The outcome of a part that raises script errors only. -/
def raising {α : Type} : Except ScriptError α → WorldM α
  | .ok a => return a
  | .error e => throw (.script e)

namespace Files

open Arguments

/-- The handle that is the first argument; it must be open. -/
def fileArgument (w : World) : ArgumentsM UserdataId := do
  let v ← nextOrNil
  let refused : ScriptError := (← get).bad 1 (.expected "FILE*" (some v.kind))
  match v with
  | .userdata u =>
    match w.file? u with
    | some h => if h.closed then throw .closedFile else return u
    | none => throw refused
  | _ => throw refused

/-- Runs an operation of a handle and gives its outcome with the work in progress. -/
def transferring {α : Type} (u : UserdataId) (collected : Bytes) (taken : Nat)
    (op : TransferM α) : WorldM (Except DeviceError α × Transfer) := do
  let w ← getThe World
  match w.file? u with
  | none => throw (.script (.raised "FILE* expected"))
  | some h =>
    let (result, t, w) := w.transfer u h collected taken op
    set w
    return (result, t)

def deviceFailure (e : DeviceError) : Failure := .script (.raised e.message)

/-- Writes on; a blocked device suspends with the part that has been taken. -/
def writeOn (w : Writing) : WorldM Action := do
  let (result, t) ← transferring w.file [] w.taken (Transfer.write w.data)
  match result with
  | .ok () => return .ret [.userdata w.file]
  | .error .wouldBlock => return .suspend .blocked (.writing { w with taken := t.taken })
  | .error e => throw (deviceFailure e)

/-- The bytes of all arguments that are left. -/
def restBytes : Nat → ArgumentsM Bytes
  | 0 => return []
  | count + 1 => do
    let s ← nextText
    return Strings.bytes s ++ (← restBytes count)

def write (args : List Value) : WorldM Action := do
  let w ← getThe World
  let (file, data) ← raising <| reading "write" args do
    let file ← fileArgument w
    let data ← restBytes (args.length - 1)
    return (file, data)
  writeOn { file, data }

/-- Reads items until one is nil or the formats are used up. -/
def readItems (file : UserdataId) (results : List Value) (collected : Bytes) :
    List ReadFormat → WorldM Action
  | [] => return .ret results
  | format :: formats => do
    let (result, t) ← transferring file collected 0 (Transfer.readItem format)
    match result with
    | .ok v =>
      if v.isNil then return .ret (results ++ [v])
      else readItems file (results ++ [v]) [] formats
    | .error .wouldBlock =>
      return .suspend .blocked
        (.reading { file, formats := format :: formats, results, collected := t.collected })
    | .error e => throw (deviceFailure e)

/-- The formats that the arguments name. -/
def restFormats : Nat → ArgumentsM (List ReadFormat)
  | 0 => return []
  | count + 1 => do
    let v ← nextOrNil
    match ReadFormat.named? v with
    | some format => return format :: (← restFormats count)
    | none => throw ((← get).bad (← get).position .invalidFormat)

/-- A handle and the formats to read; without any, a line is read. -/
def fileAndFormats (name : String) (args : List Value) :
    WorldM (UserdataId × List ReadFormat) := do
  let w ← getThe World
  raising <| reading name args do
    let file ← fileArgument w
    let formats ← restFormats (args.length - 1)
    return (file, if formats.isEmpty then [.line false] else formats)

def read (args : List Value) : WorldM Action := do
  let (file, formats) ← fileAndFormats "read" args
  readItems file [] [] formats

def lines (args : List Value) : WorldM Action := do
  let (file, formats) ← fileAndFormats "lines" args
  let (f, w) := (← getThe World).addFunction (.lines file formats)
  set w
  return .ret [.function f]

/-- The next items of an iteration. -/
def nextItems (file : UserdataId) (formats : List ReadFormat) : WorldM Action := do
  match (← getThe World).file? file with
  | some h => if h.closed then throw (.script .alreadyClosed) else readItems file [] [] formats
  | none => throw (.script .alreadyClosed)

/-- Seeks or changes the buffering. A refusal other than a block is a result. -/
def controlOn (file : UserdataId) (c : Control) : WorldM Action := do
  let op : TransferM Value :=
    match c with
    | .seek target => do
      let position ← Transfer.seek target
      return Strings.intValue position
    | .buffering mode => do
      Transfer.setBuffering mode
      return .bool true
  let (result, _) ← transferring file [] 0 op
  match result with
  | .ok v => return .ret [v]
  | .error .wouldBlock => return .suspend .blocked (.control file c)
  | .error e => return .ret [.nil, .str e.message]

def seek (args : List Value) : WorldM Action := do
  let w ← getThe World
  let (file, target) ← raising <| reading "seek" args do
    let file ← fileArgument w
    let whence := (← optText).getD "cur"
    let offset := (← optInt 0).toInt
    let target ←
      match whence with
      | "set" =>
        if 0 ≤ offset then pure (Seek.start offset.toNat)
        else throw ((← get).bad 3 .offsetOutOfRange)
      | "cur" => pure (Seek.current offset)
      | "end" => pure (Seek.fromEnd offset)
      | other => throw ((← get).bad 2 (.invalidOption other))
    return (file, target)
  controlOn file (.seek target)

def setvbuf (args : List Value) : WorldM Action := do
  let w ← getThe World
  let (file, mode) ← raising <| reading "setvbuf" args do
    let file ← fileArgument w
    let mode ← nextText
    let size := (← optInt (Int64.ofNat chunkSize)).toInt
    if size < 0 then throw ((← get).bad 3 .invalidBufferSize)
    match Buffering.named? mode size.toNat with
    | some buffering => return (file, buffering)
    | none => throw ((← get).bad 2 (.invalidOption mode))
  controlOn file (.buffering mode)

/-- Flushes a handle, or closes it. -/
def finishOn (closing : Bool) (file : UserdataId) : WorldM Action := do
  let (result, _) ← transferring file [] 0 (if closing then Transfer.close else Transfer.flush)
  match result with
  | .ok () => return .ret [if closing then .bool true else .userdata file]
  | .error .wouldBlock => return .suspend .blocked (.file file)
  | .error e => throw (deviceFailure e)

def flush (args : List Value) : WorldM Action := do
  let w ← getThe World
  let file ← raising <| reading "flush" args (fileArgument w)
  finishOn false file

def close (args : List Value) : WorldM Action := do
  let w ← getThe World
  let file ← raising <| reading "close" args (fileArgument w)
  match w.file? file with
  | some h =>
    if h.standard then return .ret [.nil, .str "cannot close standard file"]
    else finishOn true file
  | none => finishOn true file

def text (args : List Value) : WorldM Action := do
  let w ← getThe World
  match args with
  | .userdata u :: _ =>
    match w.file? u with
    | some h =>
      if h.closed then return .ret [.str "file (closed)"]
      else return .ret [.str ("file (" ++ (Value.userdata u).address ++ ")")]
    | none => return .ret [.str (w.defaultText (.userdata u))]
  | _ => throw (.script (.badArgument 1 "tostring" .fileExpected))

end Files

end CoopScript
