import CoopScript.Machine.Core
import CoopScript.Script.Operator

/-! Script functions at work, one instruction at a time. -/

namespace CoopScript

namespace Proto

open CoopScript.Core

/-- Prepares the frame of a call: surplus arguments are dropped, and the registers above the
arguments are nil. -/
def enter (p : Proto) (w : Window) : CoreM Unit := do
  if p.params < w.top (← getStack) then onStack (w.setTop p.params)
  onStack (w.setTop p.regs)

/-- The window above the frame, where lookups are served. -/
def scratch (p : Proto) (w : Window) : Window := w.shift p.regs

/-- Moves the results that a callee left above register `a` down to `a`: as many as are
wanted, with nil for those that are missing, and clears the rest. -/
def collectResults (s : RegisterStack) (w : Window) (a nresults : Nat) : RegisterStack :=
  let callee := w.shift (a + 1)
  let produced := callee.top s
  let moved := s.move callee.offset (w.offset + a) (min nresults produced)
  let filled := moved.clear (w.offset + a + produced) (nresults - produced)
  filled.clear (callee.offset + nresults) (produced - nresults)

/-- Takes the results of the operation that the script waited for. -/
def finish (p : Proto) (w : Window) : Pending → CoreM Unit
  | .call base nresults => do
    modifyStack fun s => collectResults s w base nresults
    onStack (w.setTop p.regs)
  | .index dst => do
    modifyStack fun s => w.set s dst ((p.scratch w).arg s 0)
    onStack (w.setTop p.regs)

/-- Goes on after a suspension or a call. -/
def resume (p : Proto) (w : Window) : Option Pending → CoreM Unit
  | some pending => p.finish w pending
  | none => onStack (w.setTop p.regs)

def constant (p : Proto) (i : Nat) : Value := p.constants[i]?.getD .nil

def raised {α : Type} : Except ScriptError α → CoreM α
  | .ok a => return a
  | .error e => throw (.script e)

/-- Runs the instruction at `pc`; past the end the call is over without results. -/
def step (p : Proto) (f : FunctionId) (w : Window) (pc : Nat) : CoreM Move := do
  let s ← getStack
  let next := pc + 1
  let reg (r : Nat) : Value := w.get s r
  let store (dst : Nat) (v : Value) : CoreM Move := do
    modifyStack fun s => w.set s dst v
    return .go (.running f w next)
  let waiting (pending : Option Pending) : Frame := ⟨f, w, some (.script next pending)⟩
  match p.code[pc]? with
  | none =>
    onStack (w.setTop 0)
    return .go .returned
  | some instr =>
    match instr with
    | .loadConst dst index => store dst (p.constant index)
    | .loadNil dst => store dst .nil
    | .move dst src => store dst (reg src)
    | .arith op dst lhs rhs => do store dst (← raised (arith op (reg lhs) (reg rhs)))
    | .compare op dst lhs rhs => do
      store dst (.bool (← raised (compareValues op (reg lhs) (reg rhs))))
    | .concat dst lhs rhs => do store dst (← raised (concatValues (reg lhs) (reg rhs)))
    | .jump target => return .go (.running f w target)
    | .jumpIfNot cond target =>
      return .go (.running f w (if (reg cond).isTruthy then next else target))
    | .getField dst table key =>
      return .call (waiting (some (.index dst))) (.index (reg table) (p.constant key))
        (p.scratch w)
    | .call base nargs nresults =>
      let callee := w.shift (base + 1)
      let function := reg base
      onStack (callee.setTop nargs)
      return .call (waiting (some (.call base nresults))) (.value function) callee
    | .ret first count =>
      if first ≠ 0 then modifyStack fun s => s.move (w.offset + first) w.offset count
      onStack (w.setTop count)
      return .go .returned
    | .charge cost =>
      modifyBudget (Budget.charge · cost)
      return .go (.running f w next)
    | .tick =>
      if ← tick then return .suspend .preempted (waiting none)
      else return .go (.running f w next)

end Proto

end CoopScript
