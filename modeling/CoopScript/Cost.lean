/-! What instructions cost. -/

namespace CoopScript

inductive OpCategory where
  | load
  | move
  | arith
  | compare
  | concat
  | jump
  | call
  | index
  | ret
  deriving DecidableEq, Repr

/-- The cost of an instruction of each category. -/
structure CostTable where
  load : Nat := 1
  move : Nat := 1
  arith : Nat := 1
  compare : Nat := 1
  concat : Nat := 2
  jump : Nat := 1
  call : Nat := 5
  index : Nat := 2
  ret : Nat := 1
  deriving DecidableEq, Inhabited

namespace CostTable

def uniform (cost : Nat) : CostTable :=
  ⟨cost, cost, cost, cost, cost, cost, cost, cost, cost⟩

def cost (t : CostTable) : OpCategory → Nat
  | .load => t.load
  | .move => t.move
  | .arith => t.arith
  | .compare => t.compare
  | .concat => t.concat
  | .jump => t.jump
  | .call => t.call
  | .index => t.index
  | .ret => t.ret

end CostTable

/-- Costs are words of 32 bits; a sum beyond the greatest one stays there. -/
def costLimit : Nat := UInt32.size - 1

end CoopScript
