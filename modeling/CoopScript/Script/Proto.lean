import CoopScript.Error
import CoopScript.Script.Instr

/-! Prototypes of script functions and their verification. Verified code names only registers
of its frame and constants of its pool, and jumps only into itself or to its end. -/

namespace CoopScript

inductive VerifyError where
  | tooManyParams (function : String) (params regs : Nat)
  | invalidRegister (register max offset : Nat)
  | invalidJumpTarget (target offset : Nat)
  | invalidConstantRef (index offset : Nat)
  deriving DecidableEq

def VerifyError.message : VerifyError → String
  | tooManyParams f params regs =>
    "Function '" ++ f ++ "' declares " ++ natText params ++ " parameters but only " ++
      natText regs ++ " registers"
  | invalidRegister register max offset =>
    "Invalid register " ++ natText register ++ " (max " ++ natText max ++ ") at offset " ++
      natText offset
  | invalidJumpTarget target offset =>
    "Invalid jump target " ++ natText target ++ " at offset " ++ natText offset
  | invalidConstantRef index offset =>
    "Invalid constant pool reference: index " ++ natText index ++ " at offset " ++ natText offset

/-- A demand that an instruction makes on its prototype. -/
inductive Operand where
  /-- A range of registers that ends before `stop`. -/
  | registers (stop : Nat)
  | constant (index : Nat)
  | target (index : Nat)
  deriving DecidableEq

/-- What an instruction demands, in the order it is checked. -/
def Instr.operands : Instr → List Operand
  | loadConst dst index => [.registers (dst + 1), .constant index]
  | loadNil dst => [.registers (dst + 1)]
  | move dst src => [.registers (dst + 1), .registers (src + 1)]
  | arith _ dst lhs rhs | compare _ dst lhs rhs | concat dst lhs rhs =>
    [.registers (dst + 1), .registers (lhs + 1), .registers (rhs + 1)]
  | jump target => [.target target]
  | jumpIfNot cond target => [.registers (cond + 1), .target target]
  | getField dst table key => [.registers (dst + 1), .registers (table + 1), .constant key]
  | call base nargs nresults =>
    [.registers (base + 1), .registers (base + 1 + nargs), .registers (base + nresults)]
  | ret first count => [.registers (first + count)]
  | charge _ | tick => []

/-- The code of a script function: parameters, the size of its frame, constants, and
instructions. -/
structure Proto where
  name : String
  params : Nat
  regs : Nat
  constants : List Value
  code : List Instr
  deriving DecidableEq

namespace Proto

/-- How the prototype fails to meet a demand of the instruction at the offset. -/
def fault? (p : Proto) (offset : Nat) (operand : Operand) : Option VerifyError :=
  match operand with
  | .registers stop =>
    if p.regs < stop then some (.invalidRegister (stop - 1) p.regs offset) else none
  | .constant index =>
    if p.constants.length ≤ index then some (.invalidConstantRef index offset) else none
  | .target index =>
    if p.code.length < index then some (.invalidJumpTarget index offset) else none

/-- The faults of the prototype in the order they are found. -/
def faults (p : Proto) : List VerifyError :=
  (if p.regs < p.params then [.tooManyParams p.name p.params p.regs] else []) ++
    p.code.zipIdx.flatMap fun (instr, offset) => instr.operands.filterMap (p.fault? offset)

/-- The prototype if it has no fault, else its first one. -/
def verified (p : Proto) : Except VerifyError Proto :=
  match p.faults with
  | [] => .ok p
  | e :: _ => .error e

/-- The prototype with other code. -/
def withCode (p : Proto) (code : List Instr) : Except VerifyError Proto :=
  verified { p with code }

end Proto

end CoopScript
