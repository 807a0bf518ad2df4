import Stylesheet.Progress
import Stylesheet.Text.Name
import Stylesheet.Token.Read

/-!
# Productions

A production reads a part of a stylesheet: it moves the cursor over the text of that part and
answers what it is, or fails with a syntax error. This module holds the state that productions share
and the smallest of them. Where a production declines what it finds, it leaves the state as it was.
-/

namespace Stylesheet.Grammar

/-- What is given back when a statement that was tried as a declaration is read again as something
else. -/
inductive Rollback
  /-- The place and the warnings. -/
  | position
  /-- The whole state, the end of the last block included. -/
  | everything
  deriving DecidableEq, Repr

/-- The state that productions share. -/
structure State where
  cursor : Cursor
  options : Options
  /-- The offset right behind the block closed last. -/
  blockEnd : Option Nat := none
  /-- The warnings for the text that was kept. -/
  warnings : List Deprecation := []
  /-- The lines of the statements that were read again as something else, in order. -/
  backtracks : List Nat := []
  rollback : Rollback := .position
  deriving DecidableEq

/-- A part of a stylesheet, read from the state. An error leaves the state as far as it came. -/
abbrev Production := EStateM SyntaxError State

namespace State

/-- How much there is to read. -/
def size (s : State) : Nat :=
  s.cursor.left

/-- Whether the block closed last ends right here. -/
def atBlockEnd (s : State) : Bool :=
  s.blockEnd = some s.cursor.offset

/-- The state after giving up what was read since an earlier one. -/
def giveUp (s before : State) : State :=
  { s with
    cursor := before.cursor
    warnings := before.warnings
    blockEnd := match s.rollback with
      | .position => s.blockEnd
      | .everything => before.blockEnd
    backtracks := s.backtracks ++ [before.cursor.line] }

end State

/-- The place of the cursor. -/
def here : Production Cursor :=
  return (← get).cursor

/-- Goes to a place. -/
def moveTo (c : Cursor) : Production Unit :=
  modify fun s => { s with cursor := c }

/-- Fails, saying what was expected here. -/
def fail {α : Type} (expected : String) : Production α := do
  throw ((← here).unexpected expected)

/-- Whether a form of text comes next. -/
def sees (form : Recognizer) : Production Bool :=
  return (← here).sees form

/-- Passes a form of text if it comes next, and answers the text. -/
def take? (form : Recognizer) : Production (Option Text) := do
  let c ← here
  match form c.rest with
  | none => return none
  | some n =>
    moveTo (c.advance n)
    return some (c.rest.take n)

/-- Passes a form of text if it comes next, and answers whether it did. -/
def passes (form : Recognizer) : Production Bool :=
  return (← take? form).isSome

theorem take?_apply (form : Recognizer) (s : State) :
    take? form s =
      match form s.cursor.rest with
      | none => .ok none s
      | some n => .ok (some (s.cursor.rest.take n)) { s with cursor := s.cursor.advance n } := by
  show (match form s.cursor.rest with
    | none => pure none
    | some n => (moveTo (s.cursor.advance n) >>= fun _ => pure (some (s.cursor.rest.take n)) :
        Production (Option Text))) s = _
  cases form s.cursor.rest <;> rfl

theorem passes_apply (form : Recognizer) (s : State) :
    passes form s =
      match form s.cursor.rest with
      | none => .ok false s
      | some n => .ok true { s with cursor := s.cursor.advance n } := by
  unfold passes
  simp only [bind, EStateM.bind, pure, EStateM.pure, take?_apply]
  cases form s.cursor.rest <;> rfl

/-- One certain character. -/
def char (x : Char) : Recognizer :=
  Recognizer.one (· == x)

/-- Passes a character that has to come next. -/
def expect (x : Char) : Production Unit := do
  unless ← passes (char x) do
    fail ("\"" ++ String.singleton x ++ "\"")

/-- Passes white space and comments, and answers whether there were any. -/
def skipTrivia : Production Bool :=
  passes Recognizer.trivia

/-- An identifier, as it is written. -/
def identifier : Production Text := do
  match ← take? Recognizer.identifier with
  | some name => return name
  | none => fail "identifier"

/-- A variable `$name`, by its name. -/
def variableName : Production Text := do
  match ← take? ((char '$').andThen Recognizer.identifier) with
  | some text => return Text.unescape (text.drop 1)
  | none => fail "variable"

/-- Passes a word that comes next and that nothing continues. -/
def keyword (word : String) : Production Bool :=
  passes ((Recognizer.literal word.toList).notBefore isNameChar)

/-- Runs a lexer from here. The state goes on from where the lexer stops, before a token that it
only looked at, and takes over its warnings. -/
def lexing {α : Type} (reading : LexM α) : Production (α × Lexer) := fun s =>
  match reading (.ofCursor s.cursor s.options) with
  | .error e _ => .error e s
  | .ok a l => .ok (a, l) { s with cursor := l.front, warnings := s.warnings ++ l.warnings }

/-- Passes an interpolation if one comes next, and answers whether it did. -/
def interpolation : Production Bool := do
  if ← passes (Recognizer.literal ['#', '{']) then
    let _ ← lexing Lexer.interpolation
    return true
  else
    return false

end Stylesheet.Grammar
