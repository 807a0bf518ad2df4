import Stylesheet.Text.Visible

/-!
# Quoted text

A text is shown between double quotes. The quotes and backslashes in it are escaped, and a character
that leaves no mark of its own when it is printed is shown by its number.
-/

namespace Stylesheet.Text

/-- A character as it is shown between quotes. -/
def quotedChar (c : Char) : Text :=
  match c with
  | '"' => ['\\', '"']
  | '\\' => ['\\', '\\']
  | '\n' => ['\\', 'n']
  | '\r' => ['\\', 'r']
  | '\t' => ['\\', 't']
  | '\x00' => ['\\', '0']
  | c => if isVisible c then [c] else ['\\', 'u', '{'] ++ Nat.toDigits 16 c.toNat ++ ['}']

/-- A text between quotes. -/
def quoted (t : Text) : Text :=
  '"' :: (t.flatMap quotedChar ++ ['"'])

end Stylesheet.Text
