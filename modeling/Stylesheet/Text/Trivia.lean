import Stylesheet.Text.Property

/-!
# White space and comments

Between two tokens there may be white space, comments from `/*` to the next `*/`, and comments from
`//` to the end of the line. Together they are called trivia. A `/*` that is never closed is not
trivia.
-/

namespace Stylesheet

namespace Text

/-- The number of white space characters at the front. -/
def blankLength (t : Text) : Nat :=
  (t.takeWhile isBlank).length

/-- The text without the white space at its ends. -/
def trim (t : Text) : Text :=
  ((t.dropWhile isBlank).reverse.dropWhile isBlank).reverse

/-- The number of characters up to the end of the first `*/`. -/
def commentClose? : Text → Option Nat
  | '*' :: '/' :: _ => some 2
  | _ :: t => (commentClose? t).map (· + 1)
  | [] => none

end Text

namespace Recognizer

/-- At least one white space character. -/
def blanks : Recognizer :=
  run₁ isBlank

/-- A comment from `/*` to the next `*/`. -/
def blockComment : Recognizer
  | '/' :: '*' :: t => (Text.commentClose? t).map (· + 2)
  | _ => none

/-- A comment from `//` to the end of the line, which stays outside. -/
def lineComment : Recognizer
  | '/' :: '/' :: t => some ((t.takeWhile (· != '\n')).length + 2)
  | _ => none

/-- One run of white space or one comment. -/
def trivium : Recognizer :=
  blanks.orElse (blockComment.orElse lineComment)

end Recognizer

namespace Text

/-- The number of characters of white space and comments at the front. -/
def triviaLength : Text → Nat
  | [] => 0
  | c :: t =>
    match Recognizer.trivium (c :: t) with
    | some (n + 1) => n + 1 + triviaLength (t.drop n)
    | _ => 0
termination_by t => t.length
decreasing_by simp only [List.length_drop, List.length_cons]; omega

end Text

/-- White space and comments, of at least one character. -/
def Recognizer.trivia : Recognizer :=
  fun t => match t.triviaLength with
    | 0 => none
    | n => some n

end Stylesheet
