import Stylesheet.Options
import Stylesheet.Text.Cursor
import Stylesheet.Text.Property

/-!
# Errors, warnings and the log

Reading ends at the first syntax error. Almost every error says what was expected, and shows the
text before and after the place: the line around it, shortened where it is long, and without the
newlines that separate the place from the text. A deprecated form gives a warning instead, which
counts once the text that holds it is kept. The log records the warnings along with two events of
interest to a caller who looks closely.
-/

namespace Stylesheet

/-! ### Syntax errors -/

/-- What is wrong with a text. -/
inductive Problem
  /-- Something was expected between the text before and the text found. -/
  | unexpected (before : Text) (expected : String) (found : Text)
  /-- An `@else` follows no `@if`. -/
  | strayElse
  deriving DecidableEq

/-- A problem and the line it is on. -/
structure SyntaxError where
  problem : Problem
  line : Nat
  deriving DecidableEq

/-- The wording of a problem. -/
def Problem.message : Problem → String
  | unexpected before expected found =>
    "Invalid CSS after \"" ++ String.ofList before ++ "\": expected " ++ expected ++
      ", was \"" ++ String.ofList found ++ "\""
  | strayElse => "Invalid CSS: @else must come after @if"

/-- The wording of an error, without its line. -/
def SyntaxError.message (e : SyntaxError) : String :=
  e.problem.message

instance : ToString SyntaxError where
  toString e := e.message ++ " on line " ++ toString e.line

namespace Context

/-- The most characters that are shown whole. -/
def limit : Nat := 18

/-- The characters that are kept of a longer text. -/
def kept : Nat := 15

/-- The text up to the first newline, after leading white space if there is a newline in it. -/
def nearestLine (t : Text) : Text :=
  let t := if (t.takeWhile isBlank).contains '\n' then t.dropWhile isBlank else t
  t.takeWhile (· != '\n')

/-- The front of a text that is too long to be shown whole, with dots for the rest of it. -/
def shorten (t : Text) : Text :=
  if limit < t.length then t.take kept ++ ['.', '.', '.'] else t

/-- The text before a place, as an error shows it. It is read backwards, from the place. -/
def before (c : Cursor) : Text :=
  (shorten (nearestLine c.past)).reverse

/-- The text after a place, as an error shows it. -/
def found (c : Cursor) : Text :=
  shorten (nearestLine c.rest)

end Context

/-- The error of finding something else at a place than what was expected there. -/
def Cursor.unexpected (c : Cursor) (expected : String) : SyntaxError :=
  ⟨.unexpected (Context.before c) expected (Context.found c), c.line⟩

/-! ### Warnings -/

/-- The use of a variable with `!` in place of `$`. -/
structure Deprecation where
  line : Nat
  /-- The name of the variable. -/
  name : Text
  /-- The file it is in, if that is known. -/
  file : Option String
  deriving DecidableEq

/-- The wording of a warning. -/
def Deprecation.message (d : Deprecation) : String :=
  let file := match d.file with
    | some file => " of " ++ file
    | none => ""
  let name := String.ofList d.name
  "DEPRECATION WARNING on line " ++ toString d.line ++ file ++ ": the !" ++ name ++
    " variable syntax is deprecated, use $" ++ name ++ " instead"

/-! ### The log -/

/-- Something worth a record. -/
inductive Event
  /-- A declaration was tried at a statement on this line and given up. -/
  | backtrack (line : Nat)
  /-- A deprecated form was kept. -/
  | deprecated (warning : Deprecation)
  /-- A block definition was bound to its name. -/
  | bound (name : Text) (parameters : Nat)
  deriving DecidableEq

instance : ToString Event where
  toString
    | .backtrack line =>
      "DEBUG line " ++ toString line ++ ": not a declaration, parsing as a ruleset"
    | .deprecated warning => "WARN " ++ warning.message
    | .bound name parameters =>
      "TRACE binding block " ++ String.ofList name ++ " (" ++ toString parameters ++ " params)"

end Stylesheet
