import CoopScript.Config
import CoopScript.Stream.Device
import CoopScript.Toml.Reader

/-! Settings from documents. Everything is optional, names that mean nothing are skipped, and
a value of the wrong type makes the document malformed. -/

namespace CoopScript

namespace Toml

/-- A group of settings: by name, or by position in a list. -/
inductive Group where
  | named (entries : Entries)
  | listed (items : List Node)

/-- The group that a node holds. A date holds no settings, and neither a text nor a number is
a group. -/
def Node.group? : Node → Option Group
  | .inlineTable entries | .table _ entries => some (.named entries)
  | .array items => some (.listed items)
  | .tables elements =>
    some (.listed (elements.reverse.map fun entries => .table .header entries))
  | .datetime => some (.named [])
  | _ => none

/-- The node of a setting by its name and position. -/
def Group.node? (g : Group) (name : String) (position : Nat) : Option Node :=
  match g with
  | .named entries => entries.lookup name
  | .listed items => items[position]?

/-- A setting, or its default if it is not there. -/
def Group.setting {α : Type} (g : Group) (name : String) (position : Nat) (default : α)
    (decode : Node → Option α) : Option α :=
  match g.node? name position with
  | some node => decode node
  | none => some default

def natural? (limit : Nat) : Node → Option Nat
  | .integer i => if 0 ≤ i ∧ i ≤ limit then some i.toNat else none
  | _ => none

def integer? : Node → Option Int
  | .integer i => some i
  | _ => none

/-- Sizes and budgets are words of 64 bits, costs of 32. -/
def size? : Node → Option Nat := natural? (UInt64.size - 1)

def cost? : Node → Option Nat := natural? costLimit

def costs? (n : Node) : Option CostTable := do
  let g ← n.group?
  let d : CostTable := {}
  return {
    load := ← g.setting "load" 0 d.load cost?
    move := ← g.setting "move" 1 d.move cost?
    arith := ← g.setting "arith" 2 d.arith cost?
    compare := ← g.setting "compare" 3 d.compare cost?
    concat := ← g.setting "concat" 4 d.concat cost?
    jump := ← g.setting "jump" 5 d.jump cost?
    call := ← g.setting "call" 6 d.call cost?
    index := ← g.setting "index" 7 d.index cost?
    ret := ← g.setting "return" 8 d.ret cost? }

def preemption? (n : Node) : Option Preemption := do
  let g ← n.group?
  let d : Preemption := {}
  return {
    budget := ← g.setting "budget" 0 d.budget fun n => (size? n).map some
    lowWaterMark := ← g.setting "low_water_mark" 1 d.lowWaterMark integer?
    costs := ← g.setting "costs" 2 d.costs costs? }

def engine? (n : Node) : Option EngineConfig := do
  let g ← n.group?
  let d : EngineConfig := {}
  return {
    stackCapacity := ← g.setting "stack_capacity" 0 d.stackCapacity size?
    preemption := ← g.setting "preemption" 1 d.preemption preemption? }

def config? (n : Node) : Option Config := do
  let g ← n.group?
  let d : Config := {}
  return {
    engine := ← g.setting "engine" 0 d.engine engine?
    maxPauses := ← g.setting "max_pauses" 1 d.maxPauses size? }

/-- What a whole document decodes to. -/
def decode {α : Type} (text : String) (decode? : Node → Option α) : Except ConfigError α :=
  match (read? text.toList).bind fun entries => decode? (.table .header entries) with
  | some a => .ok a
  | none => .error .malformed

end Toml

/-- The settings of an engine from a document. -/
def EngineConfig.ofText (text : String) : Except ConfigError EngineConfig := do
  (← Toml.decode text Toml.engine?).validated

def Config.ofText (text : String) : Except ConfigError Config := do
  (← Toml.decode text Toml.config?).validated

/-- The settings in a file of the disk, which must hold text. -/
def Config.ofFile (disk : Disk) (name : String) : Except HostError Config :=
  match disk.find? name with
  | none => .error (.device DeviceError.noSuchFile.message)
  | some bytes =>
    match Utf8.decode? bytes with
    | none => .error (.device "stream did not contain valid UTF-8")
    | some text =>
      match Config.ofText (String.ofList text) with
      | .ok c => .ok c
      | .error e => .error (.config e)

end CoopScript
