import CoopScript.Stream.Handle

/-! Reading items from a handle: lines, everything, numbers, or a count of bytes. What an item
has collected survives a refusal, so that the next attempt goes on from there. -/

namespace CoopScript

inductive ReadFormat where
  | line (keepNewline : Bool)
  | all
  | number
  | count (n : Nat)
  deriving DecidableEq

/-- The format that an argument names: a letter after any stars, or a number of bytes. -/
def ReadFormat.named? (v : Value) : Option ReadFormat :=
  match v with
  | .str s =>
    match (s.toList.dropWhile (· = '*')).head? with
    | some 'l' => some (line false)
    | some 'L' => some (line true)
    | some 'a' => some all
    | some 'n' => some number
    | _ => none
  | .int _ | .float _ =>
    match v.wholeNumber? with
    | some n => if 0 ≤ n.toInt then some (count n.toInt.toNat) else none
    | none => none
  | _ => none

namespace Transfer

def setCollected (collected : Bytes) : TransferM Unit := modify fun t => { t with collected }

/-- What was collected, none of which is left. -/
def takeCollected : TransferM Bytes := do
  let collected := (← get).collected
  setCollected []
  return collected

/-- What was collected, if anything. -/
def takeCollected? : TransferM (Option Bytes) := do
  let collected ← takeCollected
  return if collected.isEmpty then none else some collected

/-- Collects everything that was read ahead. -/
def collectAhead : TransferM Unit := do
  setCollected ((← get).collected ++ (← getHandle).ahead)
  setAhead []

/-- More chunks than the device can still deliver. -/
def chunksLeft (t : Transfer) : Nat :=
  match t.handle.channel with
  | .stream (some source) _ => source.extent + 2
  | .stream none _ => 2
  | .disk d => (t.disk.contents d.name).length + 2

def readLine (keepNewline : Bool) : Nat → TransferM (Option Bytes)
  | 0 => takeCollected?
  | chunks + 1 => do
    let ahead := (← getHandle).ahead
    if ahead.contains 10 then
      let line := (← takeCollected) ++ ahead.takeWhile (· ≠ 10)
      setAhead ((ahead.dropWhile (· ≠ 10)).drop 1)
      return some (if keepNewline then line ++ [10] else line)
    collectAhead
    if (← fill) = 0 then takeCollected? else readLine keepNewline chunks

def readAll : Nat → TransferM Bytes
  | 0 => takeCollected
  | chunks + 1 => do
    collectAhead
    if (← fill) = 0 then takeCollected else readAll chunks

/-- At most `n` bytes. -/
def readBytes (n : Nat) : Nat → TransferM (Option Bytes)
  | 0 => takeCollected?
  | chunks + 1 => do
    let ahead := (← getHandle).ahead
    let wanted := n - (← get).collected.length
    setAhead (ahead.drop wanted)
    setCollected ((← get).collected ++ ahead.take wanted)
    if n ≤ (← get).collected.length then return some (← takeCollected)
    if (← fill) = 0 then takeCollected? else readBytes n chunks

/-- No bytes: there is something unless the end is reached. -/
def readNothing : TransferM (Option Bytes) := do
  if (← getHandle).ahead.isEmpty then
    return if (← fill) = 0 then none else some []
  else return some []

def isSpaceByte (b : UInt8) : Bool := b = 32 || b = 9 || b = 10 || b = 12 || b = 13

def isNumeralByte (b : UInt8) : Bool :=
  (48 ≤ b && b ≤ 57) || (65 ≤ b && b ≤ 70) || (97 ≤ b && b ≤ 102) ||
    b = 46 || b = 43 || b = 45 || b = 120 || b = 88 || b = 112 || b = 80

/-- The greatest number of bytes of a numeral. -/
def numeralLimit : Nat := 200

/-- Adds numeral bytes to those collected, after blanks at the start. Gives what was
collected, what is left, and whether a byte ended the numeral. -/
def scanNumeral (collected : Bytes) : Bytes → Bytes × Bytes × Bool
  | [] => (collected, [], false)
  | b :: rest =>
    if collected.isEmpty && isSpaceByte b then scanNumeral collected rest
    else if isNumeralByte b && collected.length < numeralLimit then
      scanNumeral (collected ++ [b]) rest
    else (collected, b :: rest, true)

/-- The value of a numeral, or nil. -/
def numeralValue (bytes : Bytes) : Value :=
  ((Numeral.read? (Utf8.decode bytes)).map Numeral.toValue).getD .nil

def readNumber : Nat → TransferM Value
  | 0 => return numeralValue (← takeCollected)
  | chunks + 1 => do
    let (collected, rest, ended) := scanNumeral (← get).collected (← getHandle).ahead
    setCollected collected
    setAhead rest
    if ended then return numeralValue (← takeCollected)
    if (← fill) = 0 then return numeralValue (← takeCollected)
    readNumber chunks

/-- Text of the bytes, or nil. -/
def textValue (bytes : Option Bytes) : Value :=
  match bytes with
  | some bytes => .str (String.ofList (Utf8.decode bytes))
  | none => .nil

def readItem (format : ReadFormat) : TransferM Value := do
  let chunks := (← get).chunksLeft
  match format with
  | .line keepNewline => return textValue (← readLine keepNewline chunks)
  | .all => return textValue (some (← readAll chunks))
  | .number => readNumber chunks
  | .count n => return textValue (← if n = 0 then readNothing else readBytes n chunks)

end Transfer

end CoopScript
