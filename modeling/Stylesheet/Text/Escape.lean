import Stylesheet.Text.Property

/-!
# Escapes

A backslash takes the special meaning from the character after it. Before a digit of base sixteen
it starts the number of a character, which a later stage resolves; such an escape is kept.
-/

namespace Stylesheet.Text

/-- The text with each escape replaced by its character. Escapes of a number are kept as they
stand, and so is a backslash at the end. -/
def unescape : Text → Text
  | '\\' :: c :: t => if isHexDigit c then '\\' :: c :: unescape t else c :: unescape t
  | c :: t => c :: unescape t
  | [] => []

end Stylesheet.Text
