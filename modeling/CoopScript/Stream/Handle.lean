import CoopScript.Stream.Device
import CoopScript.Table

/-! Handles: a device with bytes read ahead of the script and bytes not yet written. Pending
bytes are written before anything is read, and bytes read ahead are given back before
anything is written. -/

namespace CoopScript

inductive Channel where
  | stream (source : Option Source) (sink : Option Sink)
  | disk (descriptor : Descriptor)
  deriving DecidableEq

inductive Buffering where
  | no
  | full (limit : Nat)
  | line (limit : Nat)
  deriving DecidableEq

def Buffering.named? (mode : String) (limit : Nat) : Option Buffering :=
  match mode with
  | "no" => some no
  | "full" => some (full limit)
  | "line" => some (line limit)
  | _ => none

structure Handle where
  channel : Channel
  /-- Bytes that were read but not asked for yet. -/
  ahead : Bytes := []
  /-- Bytes that were written but not accepted yet. -/
  pending : Bytes := []
  buffering : Buffering := .no
  closed : Bool := false
  /-- Standard handles cannot be closed. -/
  standard : Bool := false
  deriving DecidableEq

namespace Handle

def ofStream (source : Option Source) (sink : Option Sink) (standard : Bool) : Handle :=
  { channel := .stream source sink, standard }

def ofFile (descriptor : Descriptor) : Handle :=
  { channel := .disk descriptor, buffering := .full chunkSize }

def isReadable (h : Handle) : Bool :=
  !h.closed &&
    match h.channel with
    | .stream source _ => source.isSome
    | .disk d => d.readable

def isWritable (h : Handle) : Bool :=
  !h.closed &&
    match h.channel with
    | .stream _ sink => sink.isSome
    | .disk d => d.writable

/-- What the sink of the handle has accepted. -/
def accepted (h : Handle) : Bytes :=
  match h.channel with
  | .stream _ (some sink) => sink.accepted
  | _ => []

end Handle

/-- A handle at work: the disk beside it, the bytes collected for the item being read, and how
much of the data being written has been taken. All of it outlives a refusal. -/
structure Transfer where
  handle : Handle
  disk : Disk
  collected : Bytes := []
  taken : Nat := 0

abbrev TransferM := ExceptT DeviceError (StateM Transfer)

namespace Transfer

def setChannel (channel : Channel) : TransferM Unit :=
  modify fun t => { t with handle := { t.handle with channel } }

def setAhead (ahead : Bytes) : TransferM Unit :=
  modify fun t => { t with handle := { t.handle with ahead } }

def setPending (pending : Bytes) : TransferM Unit :=
  modify fun t => { t with handle := { t.handle with pending } }

def getHandle : TransferM Handle := do return (← get).handle

/-- Reads a chunk from the device. -/
def readChunk : TransferM Bytes := do
  let h ← getHandle
  if !h.isReadable then throw .notReadable
  match h.channel with
  | .stream (some source) sink =>
    let (result, source) := source.read
    setChannel (.stream (some source) sink)
    liftExcept result
  | .stream none _ => throw .notReadable
  | .disk d =>
    let (bytes, d) := d.read (← get).disk
    setChannel (.disk d)
    return bytes
where
  liftExcept {α : Type} : Except DeviceError α → TransferM α
    | .ok a => return a
    | .error e => throw e

/-- Writes as many of the bytes as the device accepts in one call, at least one. -/
def writeSome (bytes : Bytes) : TransferM Nat := do
  let h ← getHandle
  if !h.isWritable then throw .notWritable
  match h.channel with
  | .stream source (some sink) =>
    let (result, sink) := sink.write bytes
    setChannel (.stream source (some sink))
    match result with
    | .ok n => return n
    | .error e => throw e
  | .stream _ none => throw .notWritable
  | .disk d =>
    if bytes.isEmpty then throw .acceptedNothing
    let (d, disk) := d.write (← get).disk bytes
    setChannel (.disk d)
    modify fun t => { t with disk }
    return bytes.length

/-- Writes pending bytes until none are left; each round writes at least one. -/
def flushRounds : Nat → TransferM Unit
  | 0 => return ()
  | rounds + 1 => do
    let pending := (← getHandle).pending
    if pending.isEmpty then return ()
    let n ← writeSome pending
    setPending (pending.drop n)
    flushRounds rounds

def flushPending : TransferM Unit := do flushRounds (← getHandle).pending.length

/-- Reads a chunk ahead and gives its size; zero is the end. -/
def fill : TransferM Nat := do
  flushPending
  let bytes ← readChunk
  setAhead ((← getHandle).ahead ++ bytes)
  return bytes.length

/-- Gives bytes that a file was read ahead by back to it. -/
def giveBack : TransferM Unit := do
  let h ← getHandle
  match h.channel with
  | .disk d =>
    if !h.closed && !h.ahead.isEmpty then
      match d.seek (← get).disk (.current (-(h.ahead.length : Int))) with
      | .ok d =>
        setChannel (.disk d)
        setAhead []
      | .error e => throw e
  | .stream .. => return ()

/-- Writes the data from the part not yet taken on, without a buffer. -/
def writeThrough (data : Bytes) : Nat → TransferM Unit
  | 0 => return ()
  | rounds + 1 => do
    let taken := (← get).taken
    if data.length ≤ taken then return ()
    let n ← writeSome (data.drop taken)
    modify fun t => { t with taken := taken + n }
    writeThrough data rounds

/-- Writes data under the handle's buffering. Buffered data is taken at once and written when
the buffer is full or, line by line, when it holds the end of one. -/
def write (data : Bytes) : TransferM Unit := do
  let h ← getHandle
  if !h.isWritable then throw .notWritable
  giveBack
  match h.buffering with
  | .no =>
    flushPending
    writeThrough data data.length
  | .full limit =>
    take
    if limit ≤ (← getHandle).pending.length then flushPending
  | .line limit =>
    take
    let pending := (← getHandle).pending
    if pending.contains 10 || limit ≤ pending.length then flushPending
where
  take : TransferM Unit := do
    setPending ((← getHandle).pending ++ data.drop (← get).taken)
    modify fun t => { t with taken := data.length }

def flush : TransferM Unit := do
  flushPending
  let h ← getHandle
  if h.closed then return ()
  match h.channel with
  | .stream source (some sink) =>
    let (result, sink) := sink.flush
    setChannel (.stream source (some sink))
    match result with
    | .ok () => return ()
    | .error e => throw e
  | _ => return ()

/-- Moves the position; what was read ahead does not count as read. -/
def seek (target : Seek) : TransferM Nat := do
  flushPending
  let h ← getHandle
  let target ←
    match target with
    | .current offset =>
      let offset := offset - h.ahead.length
      if offset < Int64.minValue.toInt then throw .offsetOutOfRange
      else pure (Seek.current offset)
    | target => pure target
  if h.closed then throw .notSeekable
  match h.channel with
  | .stream .. => throw .notSeekable
  | .disk d =>
    match d.seek (← get).disk target with
    | .ok d =>
      setChannel (.disk d)
      setAhead []
      return d.cursor
    | .error e => throw e

def setBuffering (buffering : Buffering) : TransferM Unit := do
  flushPending
  modify fun t => { t with handle := { t.handle with buffering } }

def close : TransferM Unit := do
  flush
  modify fun t => { t with handle := { t.handle with ahead := [], closed := true } }

end Transfer

end CoopScript
