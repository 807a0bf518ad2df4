import Stylesheet.Diagnostic
import Stylesheet.Text.Name
import Stylesheet.Token.Basic

/-!
# The state of a lexer

A lexer reads tokens one by one from a cursor. It may look one token ahead, and put that token back.
What it has to remember besides is where it stands among interpolations: which ones are open, and
for each of them whether it is inside a string, since the string goes on behind its closing brace.
All of that changes only when a token is consumed, so looking ahead leaves no trace there.
-/

namespace Stylesheet

/-- A token that was read but not consumed. -/
structure Lookahead where
  token : Token
  /-- The place right before the token. -/
  start : Cursor
  /-- The quotes of a string that the token leaves open. -/
  opens : Option Quote
  /-- The warnings from inside the token. -/
  warnings : List Deprecation

/-- The state of a lexer. -/
structure Lexer where
  /-- The place up to which tokens were read. -/
  cursor : Cursor
  options : Options
  lookahead : Option Lookahead := none
  /-- The token consumed last. -/
  previous : Option Token := none
  /-- The place right behind the token consumed last, or the start. -/
  previousEnd : Cursor
  /-- The open interpolations, innermost first, each with the quotes of the string around it. -/
  interpolations : List (Option Quote) := []
  /-- Whether the token consumed last is a segment of a string, cut short by an interpolation. -/
  openSegment : Bool := false
  /-- The quotes of the string to go on with behind the brace consumed last. -/
  resume : Option Quote := none
  /-- How many interpolations were opened. -/
  pushes : Nat := 0
  /-- How many interpolations were closed. -/
  pops : Nat := 0
  /-- What the caller expects next, for the wording of an error. -/
  expected : Option String := none
  /-- The warnings for the tokens consumed. -/
  warnings : List Deprecation := []

/-- Reading with a lexer. An error leaves the lexer as far as it came. -/
abbrev LexM := EStateM SyntaxError Lexer

namespace Lexer

/-- A lexer at a place. -/
def ofCursor (cursor : Cursor) (options : Options) : Lexer :=
  { cursor, options, previousEnd := cursor }

/-- A lexer at the start of a text that begins at a line and column of a larger document. -/
def ofText (t : Text) (line column : Nat) (options : Options) : Lexer :=
  ofCursor (.start t line column) options

/-- The number of open interpolations. -/
def depth (l : Lexer) : Nat :=
  l.interpolations.length

/-- The place up to which tokens were consumed, where a token that was only read begins. -/
def front (l : Lexer) : Cursor :=
  match l.lookahead with
  | some ahead => ahead.start
  | none => l.cursor

/-- The lexer with a token that was only read put back. -/
def unconsume (l : Lexer) : Lexer :=
  { l with cursor := l.front, lookahead := none }

/-- The quotes of a string that goes on right here, behind the brace of an interpolation. -/
def pending (l : Lexer) : Option Quote :=
  if l.previous.any (·.isOp .closeInterpolation) then l.resume else none

/-- How much there is to read. A string that goes on counts by itself, since what is left of it may
be empty. -/
def size (l : Lexer) : Nat :=
  2 * l.front.left + if l.pending.isSome then 1 else 0

/-- The error of a token that none of the rules fits. -/
def failure (l : Lexer) : SyntaxError :=
  l.cursor.unexpected (l.expected.getD "expression")

/-- Says what is expected next, for the wording of an error in the next token. -/
def expect (l : Lexer) (description : String) : Lexer :=
  { l with expected := some description }

/-- Opens an interpolation, inside a string or not. -/
def push (l : Lexer) (around : Option Quote) : Lexer :=
  { l with interpolations := around :: l.interpolations, pushes := l.pushes + 1 }

/-- Closes the innermost interpolation, and goes on with the string around it. -/
def pop (l : Lexer) : Lexer :=
  match l.interpolations with
  | [] => l
  | around :: outer => { l with interpolations := outer, pops := l.pops + 1, resume := around }

/-- Warns of a variable in its legacy form, unless it is a flag. -/
def warn (l : Lexer) (name : Text) (line : Nat) : Lexer :=
  if l.options.quiet || Flag.isFlag name then l
  else { l with warnings := l.warnings ++ [⟨line, name, l.options.filename⟩] }

/-- What a token does to the open interpolations and to the warnings when it is consumed. -/
def note (l : Lexer) (t : Token) : Lexer :=
  let l := { l with resume := none }
  match t.kind with
  | .op .openInterpolation => if l.openSegment then { l with openSegment := false } else l.push none
  | .op .closeInterpolation => l.pop
  | .var name true => l.warn name t.line
  | _ => l

/-- Consumes a token up to whose end the lexer has read. -/
def consume (l : Lexer) (ahead : Lookahead) : Lexer :=
  let l := l.note ahead.token
  let l := match ahead.opens with
    | some q => { l.push (some q) with openSegment := true }
    | none => l
  { l with
    lookahead := none
    warnings := l.warnings ++ ahead.warnings
    previous := some ahead.token
    previousEnd := l.cursor }

/-- The warnings so far, and the lexer without them. -/
def takeWarnings (l : Lexer) : List Deprecation × Lexer :=
  (l.warnings, { l with warnings := [] })

end Lexer
end Stylesheet
