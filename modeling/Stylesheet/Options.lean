/-!
# Options

What a caller says about a text: the name of its file, the line it starts on, and whether the use of
deprecated forms is to be passed over in silence.
-/

namespace Stylesheet

/-- What a caller says about a text. -/
structure Options where
  /-- The name of the file, for warnings. -/
  filename : Option String := none
  /-- The line the text starts on. -/
  line : Nat := 1
  /-- Whether deprecated forms give no warning. -/
  quiet : Bool := false
  deriving DecidableEq

end Stylesheet
