import Stylesheet.Grammar.Expression

/-!
# Declarations

A declaration is `name: value`, perhaps with a flag, perhaps with a block of nested declarations. It
cannot always be told from the selector of a ruleset, so it is tried first, and its failure says
whether the text could have been a selector at all.
-/

namespace Stylesheet.Grammar

/-- The failure of an attempt to read a declaration. -/
structure Rejected where
  error : SyntaxError
  /-- Whether the text could not have been a selector. -/
  committed : Bool
  deriving DecidableEq

/-- An attempt to read something that may turn out to be something else. -/
abbrev Attempt := EStateM Rejected State

/-- A production as a part of an attempt, which is committed or not while it runs. -/
def during {α : Type} (committed : Bool) (p : Production α) : Attempt α := fun s =>
  match p s with
  | .ok a s' => .ok a s'
  | .error e s' => .error ⟨e, committed⟩ s'

/-- Passes a piece of the name of a property if one comes next. -/
def namePiece : Production Bool :=
  passes Recognizer.identifier <||> interpolation

/-- The name of a property: identifiers and interpolations without space between them. -/
def propertyName : Production Unit := do
  let start ← here
  repeatWhile State.size namePiece
  unless start.offset < (← here).offset do
    fail "identifier"

/-- The sign before the name of a property that only some readers understand. -/
def hack : Recognizer :=
  (char '*').orElse (char ':')

/-- The value of a declaration, its flag, and its block of nested declarations if it has one. Only
where there is space behind the colon may the value be left out, and may a block follow: without it
the text is a selector. -/
def declarationValue (block : Production (List Node)) (name : Text) (line : Nat) (spaced : Bool) :
    Production Node := do
  let value ←
    if ← pure spaced <&&> sees (char '{') then pure none else some <$> expression .statement
  let important ← flag .important
  let kind := NodeKind.property name value important
  let behind ← here
  let _ ← skipTrivia
  if ← sees (char '{') then
    unless spaced do
      fail "\";\""
    return ⟨kind, line, ← block⟩
  else
    moveTo behind
    return .leaf kind line

/-- An attempt to read a declaration. It is committed once a sign precedes the name, space follows
the colon or the value does not start like an identifier. -/
def declaration (block : Production (List Node)) : Attempt Node := do
  let start ← during false here
  let marked ← during false (passes hack)
  let name ← during marked do
    propertyName
    let name := (← here).textSince start
    let _ ← skipTrivia
    expect ':'
    return name
  let spaced ← during marked skipTrivia
  let named ← during marked (sees Recognizer.identifier)
  during (marked || spaced || !named) (declarationValue block name start.line spaced)

end Stylesheet.Grammar
