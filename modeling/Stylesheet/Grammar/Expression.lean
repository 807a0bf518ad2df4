import Stylesheet.Document.Node
import Stylesheet.Grammar.Production

/-!
# Expressions

An expression is a span of tokens. It goes on to the first token that ends it: a semicolon, a brace
of the stylesheet or a flag, and in a list of arguments also a comma or a closing parenthesis that
belongs to the list. Its text runs from its first token to the end of its last, so neither white
space nor comments around it are part of it.
-/

namespace Stylesheet.Grammar

/-- What kind of span an expression is, by what may follow it. -/
inductive Stop
  /-- The rest of a statement. -/
  | statement
  /-- An item of a list in parentheses. -/
  | argument
  deriving DecidableEq, Repr

/-- How many parentheses and interpolations are open inside an expression. -/
structure Nesting where
  parens : Nat := 0
  interpolations : Nat := 0
  deriving DecidableEq, Repr

namespace Nesting

/-- Whether nothing is open. -/
def isOutermost (n : Nesting) : Bool :=
  n.parens = 0 && n.interpolations = 0

/-- What is open behind a token, unless the token ends the expression. -/
def after (stop : Stop) (n : Nesting) (t : Token) : Option Nesting :=
  match t.kind with
  | .op .semicolon => none
  | .op .openBrace => none
  | .op .closeBrace => none
  | .var name true => if Flag.isFlag name then none else some n
  | .op .openParen => some { n with parens := n.parens + 1 }
  | .op .openInterpolation => some { n with interpolations := n.interpolations + 1 }
  | .op .closeInterpolation => some { n with interpolations := n.interpolations - 1 }
  | .op .closeParen =>
    if n.isOutermost then
      if stop = .argument then none else some n
    else
      some { n with parens := n.parens - 1 }
  | .op .comma => if stop = .argument ∧ n.isOutermost then none else some n
  | _ => some n

end Nesting

/-- An expression, behind white space and comments. -/
def expression (stop : Stop) : Production Expression := do
  let _ ← skipTrivia
  let start ← here
  let (tokens, lexer) ← lexing (Lexer.collectUntil (Nesting.after stop) {})
  if tokens.isEmpty then
    fail "expression"
  return ⟨lexer.previousEnd.textSince start, tokens, start.line⟩

/-- The name behind a `!` and the number of characters of both, white space between them
included. -/
def bangName? : Text → Option (Text × Nat)
  | '!' :: t => do
    let blanks := Text.blankLength t
    let n ← Recognizer.identifier (t.drop blanks)
    return ((t.drop blanks).take n, 1 + blanks + n)
  | _ => none

/-- Passes a flag if it comes next, and answers whether it did. -/
def flag (f : Flag) : Production Bool := do
  let start ← here
  let _ ← skipTrivia
  let c ← here
  match bangName? c.rest with
  | some (name, n) =>
    if name.equalIgnoringCase f.word then
      moveTo (c.advance n)
      return true
    else
      moveTo start
      return false
  | none =>
    moveTo start
    return false

end Stylesheet.Grammar
