import CoopScript.Number.Decimal
import CoopScript.Number.Numeral

/-! Values of scripts. Tables, functions and userdata are references into a world, so that
values are plain data and two references are equal when they name the same object. -/

namespace CoopScript

structure TableId where
  index : Nat
  deriving DecidableEq, Inhabited

structure FunctionId where
  index : Nat
  deriving DecidableEq, Inhabited

structure UserdataId where
  index : Nat
  deriving DecidableEq, Inhabited

inductive Value where
  | nil
  | bool (b : Bool)
  | int (i : Int64)
  | float (x : Binary64)
  | str (s : String)
  | table (t : TableId)
  | function (f : FunctionId)
  | userdata (u : UserdataId)
  deriving DecidableEq, Inhabited

/-- The kinds of value that scripts tell apart; both forms of number are one kind. -/
inductive Kind where
  | nil
  | boolean
  | number
  | string
  | table
  | function
  | userdata
  deriving DecidableEq

def Kind.name : Kind → String
  | nil => "nil"
  | boolean => "boolean"
  | number => "number"
  | string => "string"
  | table => "table"
  | function => "function"
  | userdata => "userdata"

def Numeral.toValue : Numeral → Value
  | .int i => .int i
  | .float x => .float x

/-- The decimal text of an integer. -/
def intText (i : Int64) : String :=
  let digits := String.ofList (Decimal.digits i.toInt.natAbs)
  if i.toInt < 0 then "-" ++ digits else digits

def natText (n : Nat) : String := String.ofList (Decimal.digits n)

/-- The text of the place of an object; objects of different kinds are kept apart. -/
def addressText (region index : Nat) : String :=
  "0x" ++ String.ofList (Nat.toDigits 16 (region * twoPow 40 + index * 32))

namespace Value

def kind : Value → Kind
  | nil => .nil
  | bool _ => .boolean
  | int _ | float _ => .number
  | str _ => .string
  | table _ => .table
  | function _ => .function
  | userdata _ => .userdata

def isNil : Value → Bool
  | nil => true
  | _ => false

/-- Everything but nil and false counts as true. -/
def isTruthy : Value → Bool
  | nil | bool false => false
  | _ => true

/-- The integer that a number equals. -/
def wholeNumber? : Value → Option Int64
  | int i => some i
  | float x => x.toInt64?
  | _ => none

/-- The number that a text writes, other values unchanged. -/
def numeric : Value → Value
  | str s => ((Numeral.read? s.toList).map Numeral.toValue).getD nil
  | v => v

/-- The integer that a number equals or that a text writes. -/
def asInt? (v : Value) : Option Int64 := v.numeric.wholeNumber?

/-- The floating-point number that a number is rounded to or that a text writes. -/
def asFloat? (v : Value) : Option Binary64 :=
  match v.numeric with
  | int i => some (Binary64.ofInt i.toInt)
  | float x => some x
  | _ => none

/-- The text of a string or a number. -/
def asText? : Value → Option String
  | str s => some s
  | int i => some (intText i)
  | float x => some x.text
  | _ => none

/-- Equality in scripts: numbers by value across both forms, objects by identity. -/
def same : Value → Value → Bool
  | nil, nil => true
  | bool a, bool b => a == b
  | int a, int b => a == b
  | float a, float b => a.same b
  | int a, float b => b.toInt64? == some a
  | float a, int b => a.toInt64? == some b
  | str a, str b => a == b
  | table a, table b => a == b
  | function a, function b => a == b
  | userdata a, userdata b => a == b
  | _, _ => false

/-- The place of an object, as text. -/
def address : Value → String
  | table t => addressText 0x10 t.index
  | function f => addressText 0x20 f.index
  | userdata u => addressText 0x30 u.index
  | _ => "0x0"

/-- The text of a value by itself; objects are written by kind and place. -/
def display (v : Value) : String :=
  match v with
  | nil => "nil"
  | bool b => if b then "true" else "false"
  | int i => intText i
  | float x => x.text
  | str s => s
  | table _ | function _ | userdata _ => v.kind.name ++ ": " ++ v.address

end Value

end CoopScript
