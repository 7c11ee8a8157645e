import CoopScript.Text.CharSet

/-! Blank characters: the Unicode property White_Space. -/

namespace CoopScript

/-- The characters with the property White_Space. -/
def blankChars : CharSet := #[
  9, 14, 32, 33, 133, 134, 160, 161, 5760, 5761, 8192, 8203, 8232, 8234, 8239, 8240, 8287, 8288,
  12288, 12289]

def isBlank (c : Char) : Bool := blankChars.holds c

/-- The text without the blanks at either end. -/
def trimBlanks (text : List Char) : List Char :=
  ((text.dropWhile isBlank).reverse.dropWhile isBlank).reverse

end CoopScript
