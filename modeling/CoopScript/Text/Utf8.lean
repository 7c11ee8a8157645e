/-! Bytes of text. Decoding never fails: each longest start of a character that the next byte
does not continue becomes one replacement character. -/

namespace CoopScript

abbrev Bytes := List UInt8

namespace Utf8

def encode (text : List Char) : Bytes := text.flatMap String.utf8EncodeChar

/-- The number of bytes of a text. -/
def size (text : List Char) : Nat := text.foldl (fun total c => total + c.utf8Size) 0

def replacement : Char := Char.ofNat 0xfffd

/-- A character that has begun: how many bytes it still needs, the bounds of the next one,
and the bits read so far. -/
structure Begun where
  needed : Nat
  low : UInt8
  high : UInt8
  value : Nat

/-- What a byte begins: a whole character, a longer one, or nothing. -/
def start (b : UInt8) : List Char × Option Begun :=
  if b < 0x80 then ([Char.ofNat b.toNat], none)
  else if b < 0xc2 then ([replacement], none)
  else if b < 0xe0 then ([], some ⟨1, 0x80, 0xbf, b.toNat % 32⟩)
  else if b = 0xe0 then ([], some ⟨2, 0xa0, 0xbf, 0⟩)
  else if b = 0xed then ([], some ⟨2, 0x80, 0x9f, 13⟩)
  else if b < 0xf0 then ([], some ⟨2, 0x80, 0xbf, b.toNat % 16⟩)
  else if b = 0xf0 then ([], some ⟨3, 0x90, 0xbf, 0⟩)
  else if b < 0xf4 then ([], some ⟨3, 0x80, 0xbf, b.toNat % 8⟩)
  else if b = 0xf4 then ([], some ⟨3, 0x80, 0x8f, 4⟩)
  else ([replacement], none)

/-- The characters a byte completes, and the one that has begun after it. -/
def feed (begun : Option Begun) (b : UInt8) : List Char × Option Begun :=
  match begun with
  | none => start b
  | some c =>
    if c.low ≤ b && b ≤ c.high then
      let value := c.value * 64 + b.toNat % 64
      if c.needed ≤ 1 then ([Char.ofNat value], none)
      else ([], some ⟨c.needed - 1, 0x80, 0xbf, value⟩)
    else
      let (out, next) := start b
      (replacement :: out, next)

def decodeFrom (begun : Option Begun) : Bytes → List Char
  | [] => if begun.isSome then [replacement] else []
  | b :: rest =>
    let (out, next) := feed begun b
    out ++ decodeFrom next rest

/-- The text of the bytes, with replacement characters where they are not valid. -/
def decode (bytes : Bytes) : List Char := decodeFrom none bytes

/-- The text of the bytes, if they are exactly the bytes of one. -/
def decode? (bytes : Bytes) : Option (List Char) :=
  let text := decode bytes
  if encode text = bytes then some text else none

/-- How many characters make up the first `offset` bytes, if a character ends there. -/
def charIndex? (text : List Char) (offset : Nat) : Option Nat :=
  match offset, text with
  | 0, _ => some 0
  | _ + 1, [] => none
  | n + 1, c :: rest =>
    if c.utf8Size ≤ n + 1 then (charIndex? rest (n + 1 - c.utf8Size)).map (· + 1) else none

end Utf8

end CoopScript
