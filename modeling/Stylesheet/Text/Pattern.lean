import Stylesheet.Text.Cursor
import Stylesheet.Text.Name
import Stylesheet.Text.Trivia

/-!
# Patterns with groups

A pattern is a form of text some parts of which are told apart as groups. A cursor matches a
pattern at its place only, and passes the matched text if it is asked to.
-/

namespace Stylesheet

/-- A pattern's match at the front of a text. -/
structure Match where
  /-- The number of characters matched. -/
  length : Nat
  /-- What the groups took, in order; a group may have taken no part. -/
  groups : List (Option Text)
  deriving DecidableEq

/-- A form of text with groups. -/
abbrev Pattern := Text → Option Match

namespace Match

/-- What a group took, counting from one. -/
def group? (m : Match) (n : Nat) : Option Text :=
  match n with
  | 0 => none
  | n + 1 => (m.groups[n]?).join

end Match

namespace Pattern

/-- A form without groups. -/
def ofForm (form : Recognizer) : Pattern :=
  fun t => (form t).map fun n => ⟨n, []⟩

/-- A form that is one group as a whole. -/
def grouped (form : Recognizer) : Pattern :=
  fun t => (form t).map fun n => ⟨n, [some (t.take n)]⟩

/-- An identifier, as a group. -/
def identifier : Pattern :=
  grouped Recognizer.identifier

/-- One character or escape of a name. -/
def namePart : Pattern :=
  ofForm Recognizer.namePart

/-- White space and comments. -/
def trivia : Pattern :=
  ofForm Recognizer.trivia

/-- A run of ASCII digits. -/
def digits : Pattern :=
  ofForm (Recognizer.run₁ Char.isDigit)

/-- The empty text, as a group. -/
def empty : Pattern :=
  grouped fun _ => some 0

/-- An optional sign, a run of ASCII digits and an optional unit of lower case letters, as three
groups. -/
def quantity : Pattern := fun t => do
  let sign := if t.head? = some '-' then 1 else 0
  let unsigned := t.drop sign
  let size ← Recognizer.run₁ Char.isDigit unsigned
  let unit := ((unsigned.drop size).takeWhile Char.isLower)
  return ⟨sign + size + unit.length,
    [if sign = 1 then some ['-'] else none, some (unsigned.take size),
      if unit.isEmpty then none else some unit]⟩

end Pattern

namespace Cursor

/-- The match of a pattern at the place, with the place behind it. -/
def match? (c : Cursor) (p : Pattern) : Option (Match × Cursor) :=
  (p c.rest).map fun m => (m, c.advance m.length)

end Cursor
end Stylesheet
