/-! Powers of the two bases that numbers are stored and written in. -/

namespace CoopScript

def twoPow (n : Nat) : Nat := Nat.pow 2 n

def tenPow (n : Nat) : Nat := Nat.pow 10 n

end CoopScript
