import CoopScript.Text.Blank
import CoopScript.Text.Digit
import CoopScript.Text.Fold
import CoopScript.Text.Word

/-! Classes of characters in patterns. -/

namespace CoopScript

inductive CharClass where
  | none
  | range (first last : Nat)
  /-- The characters that have a case variant in the range. -/
  | foldedRange (first last : Nat)
  | digit
  | word
  | blank
  | negation (c : CharClass)
  | union (a b : CharClass)
  | intersection (a b : CharClass)
  deriving DecidableEq

namespace CharClass

/-- The characters that fold to the same one. -/
def caseVariants (c : Char) : List Nat :=
  let folded := (foldCase c).toNat
  folded :: foldRuns.toList.filterMap fun (first, last, step, offset) =>
    let variant := ((folded : Int) - offset).toNat
    if decide (first ≤ variant) && decide (variant ≤ last) && (variant - first) % step == 0 then
      some variant
    else Option.none

def holds : CharClass → Char → Bool
  | none, _ => false
  | range first last, c => decide (first ≤ c.toNat) && decide (c.toNat ≤ last)
  | foldedRange first last, c =>
    (caseVariants c).any fun v => decide (first ≤ v) && decide (v ≤ last)
  | digit, c => isDecimalDigit c
  | word, c => isWordChar c
  | blank, c => isBlank c
  | negation a, c => !a.holds c
  | union a b, c => a.holds c || b.holds c
  | intersection a b, c => a.holds c && b.holds c

def difference (a b : CharClass) : CharClass := intersection a (negation b)

def symmetricDifference (a b : CharClass) : CharClass := union (difference a b) (difference b a)

/-- The ranges of the classes named in brackets, all within ASCII. -/
def named? (name : String) : Option (List (Nat × Nat)) :=
  match name with
  | "alnum" => some [(48, 57), (65, 90), (97, 122)]
  | "alpha" => some [(65, 90), (97, 122)]
  | "ascii" => some [(0, 127)]
  | "blank" => some [(9, 9), (32, 32)]
  | "cntrl" => some [(0, 31), (127, 127)]
  | "digit" => some [(48, 57)]
  | "graph" => some [(33, 126)]
  | "lower" => some [(97, 122)]
  | "print" => some [(32, 126)]
  | "punct" => some [(33, 47), (58, 64), (91, 96), (123, 126)]
  | "space" => some [(9, 13), (32, 32)]
  | "upper" => some [(65, 90)]
  | "word" => some [(48, 57), (65, 90), (95, 95), (97, 122)]
  | "xdigit" => some [(48, 57), (65, 70), (97, 102)]
  | _ => Option.none

end CharClass

end CoopScript
