import Stylesheet.Text.Property

/-!
# Colors

A color is written as a hash sign with three or six digits of base sixteen. Three digits are short
for six, each of them doubled.
-/

namespace Stylesheet

/-- A color by its shares of red, green and blue. -/
structure Color where
  red : UInt8
  green : UInt8
  blue : UInt8
  deriving DecidableEq, Repr

/-- The value of a digit of base sixteen. -/
def hexValue (c : Char) : Nat :=
  if c.isDigit then c.toNat - '0'.toNat else c.toLower.toNat - 'a'.toNat + 10

namespace Color

/-- The byte that two digits write. -/
def byte (high low : Char) : UInt8 :=
  .ofNat (16 * hexValue high + hexValue low)

/-- The color that a text without the hash sign writes. -/
def ofHex? (t : Text) : Option Color :=
  if t.all isHexDigit then
    match t with
    | [r, g, b] => some ⟨byte r r, byte g g, byte b b⟩
    | [r, r', g, g', b, b'] => some ⟨byte r r', byte g g', byte b b'⟩
    | _ => none
  else
    none

/-- The two digits of a byte. -/
def digits (n : UInt8) : Text :=
  [Nat.digitChar (n.toNat / 16), Nat.digitChar (n.toNat % 16)]

/-- The six digits that write a color, after a hash sign. -/
def toText (c : Color) : Text :=
  '#' :: (digits c.red ++ digits c.green ++ digits c.blue)

end Color
end Stylesheet
