import CoopScript.Error

/-! Tables: finite maps from keys to values other than nil. -/

namespace CoopScript

/-- What a table is indexed by. Numbers that equal an integer have the integer's key, so keys
are equal exactly when the values are. -/
inductive Key where
  | bool (b : Bool)
  | int (i : Int64)
  | float (x : Binary64)
  | str (s : String)
  deriving DecidableEq

/-- The key of a value. -/
def Key.ofValue : Value → Except ScriptError Key
  | .nil => .error .nilKey
  | .bool b => .ok (.bool b)
  | .int i => .ok (.int i)
  | .float x =>
    if x.isNaN then .error .nanKey
    else
      match x.toInt64? with
      | some i => .ok (.int i)
      | none => .ok (.float x)
  | .str s => .ok (.str s)
  | v => .error (.unsupportedKey v.kind)

structure Table where
  /-- At most one entry per key. -/
  entries : List (Key × Value) := []
  metatable : Option TableId := none
  deriving Inhabited

namespace Table

def find (t : Table) (key : Key) : Value := (t.entries.lookup key).getD .nil

/-- The value under a key; values that are no keys have none. -/
def get (t : Table) (key : Value) : Value :=
  match Key.ofValue key with
  | .ok k => t.find k
  | .error _ => .nil

def getText (t : Table) (key : String) : Value := t.find (.str key)

/-- The table with the value under the key; nil removes the entry. -/
def put (t : Table) (key : Key) (value : Value) : Table :=
  let others := t.entries.filter fun (k, _) => k != key
  { t with entries := if value.isNil then others else (key, value) :: others }

def set (t : Table) (key value : Value) : Except ScriptError Table := do
  return t.put (← Key.ofValue key) value

def setText (t : Table) (key : String) (value : Value) : Table := t.put (.str key) value

def size (t : Table) : Nat := t.entries.length

end Table

end CoopScript
