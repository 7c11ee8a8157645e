import CoopScript.Script.Instr

/-! The accounting pass. Code is split into blocks that are entered only at their start, and
each block is preceded by a charge of its whole cost and a tick. Jumps are moved to the charge
of the block they enter, so a loop pays for its body in every round. -/

namespace CoopScript

/-- The code without accounting instructions. A jump goes to the first instruction left at or
after its old target; targets past the end count as the end. -/
def stripAccounting (code : List Instr) : List Instr :=
  (code.filter (!·.isAccounting)).map
    (Instr.retarget fun target => ((code.take target).filter (!·.isAccounting)).length)

/-- Whether a block starts at the index: at the start, at every jump target, and after every
instruction that ends one. -/
def isLeader (body : List Instr) (i : Nat) : Bool :=
  i == 0 || body.any (fun instr => instr.target? == some i) ||
    (match body[i - 1]? with | some instr => instr.endsBlock | none => false)

/-- How many blocks start before the index. -/
def leadersBefore (body : List Instr) (i : Nat) : Nat :=
  ((List.range (min i body.length)).filter (isLeader body)).length

/-- Where the instruction at an index, or its block's charge if it starts one, ends up. -/
def relocated (body : List Instr) (i : Nat) : Nat := i + 2 * leadersBefore body i

/-- The indices of the block that starts at the index. -/
def blockFrom (body : List Instr) (i : Nat) : List Nat :=
  i :: (List.range' (i + 1) (body.length - (i + 1))).takeWhile (!isLeader body ·)

/-- The cost of the block that starts at the index, at most the limit. -/
def blockCost (body : List Instr) (costs : CostTable) (i : Nat) : Nat :=
  let costAt (j : Nat) : Nat :=
    match body[j]?.bind Instr.category with
    | some category => costs.cost category
    | none => 0
  min costLimit ((blockFrom body i).foldl (fun total j => total + costAt j) 0)

/-- The code with accounting under the cost table in place of any it had. -/
def instrument (code : List Instr) (costs : CostTable) : List Instr :=
  let body := stripAccounting code
  body.zipIdx.flatMap fun (instr, i) =>
    (if isLeader body i then [.charge (blockCost body costs i), .tick] else []) ++
      [instr.retarget (relocated body)]

end CoopScript
