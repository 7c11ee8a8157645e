/-! Sets of characters given by their boundaries. -/

namespace CoopScript

/-- The bounds of a set of characters in increasing order: the set starts at the first bound,
stops before the second, starts again at the third, and so on. -/
abbrev CharSet := Array Nat

/-- A code is in the set when an odd number of bounds lie at or below it. -/
def CharSet.holds (set : CharSet) (c : Char) : Bool :=
  set.foldl (fun inside bound => if bound ≤ c.toNat then !inside else inside) false

end CoopScript
