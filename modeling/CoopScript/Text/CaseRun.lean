/-! Runs of characters that a case mapping moves by a common distance. -/

namespace CoopScript

/-- Each entry `(first, last, step, offset)` moves the codes `first`, `first + step`, … up to
`last` by `offset`. -/
abbrev CaseRuns := Array (Nat × Nat × Nat × Int)

/-- The code of the character after the mapping; one that no run holds stays. -/
def CaseRuns.map (runs : CaseRuns) (c : Char) : Char :=
  match runs.find? fun (first, last, step, _) =>
      decide (first ≤ c.toNat) && decide (c.toNat ≤ last) && (c.toNat - first) % step == 0 with
  | some (_, _, _, offset) => Char.ofNat ((c.toNat : Int) + offset).toNat
  | none => c

end CoopScript
