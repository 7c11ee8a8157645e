import CoopScript.Text.Utf8

/-! Devices that handles are connected to: sources that deliver bytes, sinks that accept them,
and a disk of files. Sources and sinks follow a script of what each call to them does. -/

namespace CoopScript

/-- Why a device refuses. -/
inductive DeviceError where
  /-- Nothing can be done now; the call may be tried again later. -/
  | wouldBlock
  | interrupted
  | failed (text : String)
  | notReadable
  | notWritable
  | acceptedNothing
  | notSeekable
  | offsetOutOfRange
  | beforeStart
  | noSuchFile
  | invalidName
  | nameTooLong
  deriving DecidableEq

def DeviceError.message : DeviceError → String
  | wouldBlock => "operation would block"
  | interrupted => "operation interrupted"
  | failed text => text
  | notReadable => "file not open for reading"
  | notWritable => "file not open for writing"
  | acceptedNothing => "failed to write whole buffer"
  | notSeekable => "cannot seek on a stream"
  | offsetOutOfRange => "offset out of range"
  | beforeStart => "Invalid argument (os error 22)"
  | noSuchFile => "No such file or directory (os error 2)"
  | invalidName => "file name contained an unexpected NUL byte"
  | nameTooLong => "File name too long (os error 36)"

/-- What one call to a source does. -/
inductive Delivery where
  | data (bytes : Bytes)
  | block
  | interrupt
  | eof
  | fail (text : String)
  deriving DecidableEq

/-- The calls to come; afterwards the source is at its end for ever. -/
abbrev Source := List Delivery

/-- The greatest number of bytes that one call delivers. -/
def chunkSize : Nat := 4096

/-- Calls the source, again after each interruption. Nothing delivered means the end. -/
def Source.read : Source → Except DeviceError Bytes × Source
  | [] => (.ok [], [])
  | .data bytes :: rest =>
    let left := bytes.drop chunkSize
    (.ok (bytes.take chunkSize), if left.isEmpty then rest else .data left :: rest)
  | .block :: rest => (.error .wouldBlock, rest)
  | .interrupt :: rest => Source.read rest
  | .eof :: rest => (.ok [], rest)
  | .fail text :: rest => (.error (.failed text), rest)

/-- More calls than the source can answer with data. -/
def Source.extent : Source → Nat
  | [] => 0
  | .data bytes :: rest => bytes.length + 1 + Source.extent rest
  | _ :: rest => 1 + Source.extent rest

/-- What one call to a sink does. -/
inductive Acceptance where
  | upTo (count : Nat)
  | block
  | interrupt
  | fail (text : String)
  deriving DecidableEq

/-- A sink with the calls to come, after which it accepts everything, and what it has
accepted. -/
structure Sink where
  writes : List Acceptance := []
  flushes : List Acceptance := []
  accepted : Bytes := []
  deriving DecidableEq

namespace Sink

/-- How many of the bytes the next call accepts, again after each interruption, and the calls
left. Accepting nothing is an error. -/
def accept (count : Nat) : List Acceptance → Except DeviceError Nat × List Acceptance
  | [] => (if count = 0 then .error .acceptedNothing else .ok count, [])
  | .upTo n :: rest =>
    let accepted := min n count
    (if accepted = 0 then .error .acceptedNothing else .ok accepted, rest)
  | .block :: rest => (.error .wouldBlock, rest)
  | .interrupt :: rest => accept count rest
  | .fail text :: rest => (.error (.failed text), rest)

def write (s : Sink) (bytes : Bytes) : Except DeviceError Nat × Sink :=
  match accept bytes.length s.writes with
  | (.ok n, writes) => (.ok n, { s with writes, accepted := s.accepted ++ bytes.take n })
  | (.error e, writes) => (.error e, { s with writes })

/-- One call to flush; an interruption is reported. -/
def flush (s : Sink) : Except DeviceError Unit × Sink :=
  match s.flushes with
  | [] => (.ok (), s)
  | .upTo _ :: flushes => (.ok (), { s with flushes })
  | .block :: flushes => (.error .wouldBlock, { s with flushes })
  | .interrupt :: flushes => (.error .interrupted, { s with flushes })
  | .fail text :: flushes => (.error (.failed text), { s with flushes })

end Sink

/-- The files of a directory by name. -/
structure Disk where
  files : List (String × Bytes) := []
  deriving DecidableEq, Inhabited

namespace Disk

def find? (d : Disk) (name : String) : Option Bytes := d.files.lookup name

def contents (d : Disk) (name : String) : Bytes := (d.find? name).getD []

/-- The disk with the contents under the name; a new file comes last. -/
def put (d : Disk) (name : String) (contents : Bytes) : Disk :=
  if d.files.any (·.1 == name) then
    ⟨d.files.map fun (n, old) => (n, if n == name then contents else old)⟩
  else ⟨d.files ++ [(name, contents)]⟩

end Disk

/-- The contents after writing at an offset; a gap before it is filled with zeros. -/
def overwrite (contents : Bytes) (offset : Nat) (bytes : Bytes) : Bytes :=
  contents.take offset ++ List.replicate (offset - contents.length) 0 ++ bytes ++
    contents.drop (offset + bytes.length)

/-- An open file: what it is open for and where it stands. -/
structure Descriptor where
  name : String
  readable : Bool
  writable : Bool
  /-- Every write goes to the end. -/
  append : Bool
  cursor : Nat := 0
  deriving DecidableEq

namespace Descriptor

def read (d : Descriptor) (disk : Disk) : Bytes × Descriptor :=
  let bytes := ((disk.contents d.name).drop d.cursor).take chunkSize
  (bytes, { d with cursor := d.cursor + bytes.length })

def write (d : Descriptor) (disk : Disk) (bytes : Bytes) : Descriptor × Disk :=
  let contents := disk.contents d.name
  let offset := if d.append then contents.length else d.cursor
  ({ d with cursor := offset + bytes.length }, disk.put d.name (overwrite contents offset bytes))

end Descriptor

/-- Where a position is counted from. -/
inductive Seek where
  | start (offset : Nat)
  | current (offset : Int)
  | fromEnd (offset : Int)
  deriving DecidableEq

/-- The descriptor at a position, which must not lie before the start. -/
def Descriptor.seek (d : Descriptor) (disk : Disk) (target : Seek) :
    Except DeviceError Descriptor :=
  let position : Int :=
    match target with
    | .start offset => offset
    | .current offset => d.cursor + offset
    | .fromEnd offset => (disk.contents d.name).length + offset
  if position < 0 ∨ Int64.maxValue.toInt < position then .error .beforeStart
  else .ok { d with cursor := position.toNat }

/-- How a file is opened. -/
structure OpenMode where
  read : Bool
  write : Bool
  append : Bool := false
  truncate : Bool := false
  create : Bool := false
  deriving DecidableEq

namespace OpenMode

def reading : OpenMode := { read := true, write := false }

def writing : OpenMode := { read := false, write := true, truncate := true, create := true }

def appending : OpenMode := { read := false, write := false, append := true, create := true }

/-- The mode that a text names; a final letter `b` makes no difference. -/
def named? (text : String) : Option OpenMode :=
  let base := if text.toList.getLast? = some 'b' then text.toList.dropLast else text.toList
  match String.ofList base with
  | "r" => some reading
  | "w" => some writing
  | "a" => some appending
  | "r+" => some { reading with write := true }
  | "w+" => some { writing with read := true }
  | "a+" => some { appending with read := true }
  | _ => none

/-- Opens a file of the directory. Names that lead into another directory name no file. -/
def openFile (mode : OpenMode) (disk : Disk) (name : String) :
    Except DeviceError Descriptor × Disk :=
  let descriptor : Descriptor :=
    { name, readable := mode.read, writable := mode.write || mode.append, append := mode.append }
  if name.toList.contains (Char.ofNat 0) then (.error .invalidName, disk)
  else if name.isEmpty || name.toList.contains '/' then (.error .noSuchFile, disk)
  else if 255 < name.utf8ByteSize then (.error .nameTooLong, disk)
  else
    match disk.find? name with
    | some _ => (.ok descriptor, if mode.truncate then disk.put name [] else disk)
    | none =>
      if mode.create then (.ok descriptor, disk.put name [])
      else (.error .noSuchFile, disk)

end OpenMode

end CoopScript
