import CoopScript.Error
import CoopScript.Script.Instr

/-! Operators of scripts on values. -/

namespace CoopScript

/-- The integer operators wrap around at 64 bits; a quotient is always a floating-point
number. The remainder has the sign of the divisor. -/
def arithInt (op : ArithOp) (a b : Int64) : Except ScriptError Value :=
  match op with
  | .add => .ok (.int (a + b))
  | .sub => .ok (.int (a - b))
  | .mul => .ok (.int (a * b))
  | .div => .ok (.float ((Binary64.ofInt a.toInt).div (Binary64.ofInt b.toInt)))
  | .mod => if b = 0 then .error .moduloByZero else .ok (.int ((a % b + b) % b))

def arithFloat (op : ArithOp) (a b : Binary64) : Binary64 :=
  match op with
  | .add => a.add b
  | .sub => a.sub b
  | .mul => a.mul b
  | .div => a.div b
  | .mod => a.sub ((a.div b).floor.mul b)

/-- Arithmetic on two integers, else on the numbers that the operands stand for. -/
def arith (op : ArithOp) (lhs rhs : Value) : Except ScriptError Value :=
  match lhs, rhs with
  | .int a, .int b => arithInt op a b
  | _, _ =>
    match lhs.asFloat?, rhs.asFloat? with
    | some a, some b => .ok (.float (arithFloat op a b))
    | none, _ => .error (.arithmetic lhs.kind)
    | some _, none => .error (.arithmetic rhs.kind)

/-- The order of two values: integers among themselves, numbers as floating-point numbers,
and strings by their characters. A NaN has no order. -/
def order (lhs rhs : Value) : Except ScriptError (Option Ordering) :=
  match lhs, rhs with
  | .int a, .int b => .ok (some (compare a.toInt b.toInt))
  | .int a, .float y => .ok ((Binary64.ofInt a.toInt).compare? y)
  | .float x, .int b => .ok (x.compare? (Binary64.ofInt b.toInt))
  | .float x, .float y => .ok (x.compare? y)
  | .str a, .str b => .ok (some (if a < b then .lt else if a = b then .eq else .gt))
  | _, _ =>
    if lhs.kind = rhs.kind then .error (.compareTwo lhs.kind)
    else .error (.compareMixed lhs.kind rhs.kind)

def compareValues (op : CompareOp) (lhs rhs : Value) : Except ScriptError Bool :=
  match op with
  | .eq => .ok (lhs.same rhs)
  | .lt => do return (← order lhs rhs) == some .lt
  | .le => do
    let found ← order lhs rhs
    return found == some .lt || found == some .eq

def concatValues (lhs rhs : Value) : Except ScriptError Value :=
  match lhs.asText?, rhs.asText? with
  | some a, some b => .ok (.str (a ++ b))
  | none, _ => .error (.concatenate lhs.kind)
  | some _, none => .error (.concatenate rhs.kind)

end CoopScript
