import Stylesheet.Progress
import Stylesheet.Text.Balanced
import Stylesheet.Token.Lexeme
import Stylesheet.Token.Lexer

/-!
# Reading tokens

A token is read by the rules for its text, or, behind an interpolation inside a string, as the next
segment of that string. A special function is taken up to its closing parenthesis; the
interpolations in it are read by a lexer of their own, which may meet special functions again. The
rules of `Lexer.Rules` therefore take the rule for an interpolation as an argument, and
`Lexer.interpolation` is the one that uses itself.
-/

namespace Stylesheet

/-- Joins neighbouring parts of text. -/
def Piece.join : List Piece → List Piece
  | [] => []
  | .raw t :: ps =>
    match join ps with
    | .raw u :: ps => .raw (t ++ u) :: ps
    | ps => .raw t :: ps
  | p :: ps => p :: join ps

namespace Lexer

/-- Goes past white space and comments. -/
def skipTrivia (l : Lexer) : Lexer :=
  { l with cursor := l.cursor.skip Recognizer.trivia }

/-- Whether there is nothing left to read. White space and comments are passed over, unless a string
goes on here. -/
def isDone : LexM Bool := do
  let l ← get
  if l.lookahead.isSome || l.pending.isSome then
    return false
  modify skipTrivia
  return (← get).cursor.atEnd

namespace Rules

variable (interpolation : LexM (List Token))

/-- The parts of a special function from here up to a place. -/
def pieces (stop : Cursor) : LexM (List Piece) :=
  unfold size (fun () => do
    let c := (← get).cursor
    if stop.offset ≤ c.offset then
      return ([], none)
    match c.rest with
    | '\\' :: _ => raw c 2
    | '#' :: '{' :: _ =>
      modify fun l => { l with cursor := c.advance 2 }
      return ([.interpolation (← interpolation)], some ())
    | _ => raw c 1) ()
where
  /-- A number of characters as they are. -/
  raw (c : Cursor) (n : Nat) : LexM (List Piece × Option Unit) := do
    modify fun l => { l with cursor := c.advance n }
    return ([.raw (c.rest.take n)], some ())

/-- A special function whose beginning, up to the opening parenthesis, takes a number of
characters. -/
def special (head : Nat) : LexM (TokenKind × List Deprecation) := do
  let start := (← get).cursor
  let body := start.advance head
  modify fun l => { l with cursor := body }
  match body.rest.balancedLength? with
  | none => throw (body.unexpected "\")\"")
  | some n =>
    let stop := body.advance n
    match pieces interpolation stop (ofCursor body (← get).options) with
    | .error e _ => throw e
    | .ok parts inner =>
      modify fun l => { l with cursor := stop }
      return (.special (Piece.join (.raw (start.rest.take head) :: parts)), inner.warnings)

/-- Goes past a lexeme and makes it a token. -/
def accept (lexeme : Lexeme) : LexM Lookahead := do
  let start := (← get).cursor
  modify fun l => { l with cursor := start.advance lexeme.length }
  return ⟨⟨lexeme.kind, start.location⟩, start, lexeme.opens, []⟩

/-- The token that starts right here. -/
def token : LexM Lookahead := do
  let l ← get
  match Lexeme.leading? l.cursor.rest with
  | some lexeme => accept lexeme
  | none =>
    match Recognizer.specialHead l.cursor.rest with
    | some n =>
      let (kind, warnings) ← special interpolation n
      return ⟨⟨kind, l.cursor.location⟩, l.cursor, none, warnings⟩
    | none =>
      match Lexeme.trailing? (0 < l.depth) l.cursor.rest with
      | some lexeme => accept lexeme
      | none => throw l.failure

/-- Reads the next token, if there is one. -/
def read : LexM (Option Lookahead) := do
  let l ← get
  match l.pending with
  | some q =>
    match Lexeme.segment? q l.cursor.rest with
    | some lexeme => accept lexeme
    | none => throw l.failure
  | none =>
    modify skipTrivia
    if (← get).cursor.atEnd then
      return none
    let ahead ← token interpolation
    modify fun l => { l with expected := none }
    return ahead

/-- Reads the next token without consuming it. -/
def peek : LexM (Option Token) := do
  if (← get).lookahead.isNone then
    let ahead ← read interpolation
    modify fun l => { l with lookahead := ahead }
  return (← get).lookahead.map (·.token)

/-- Consumes the next token. -/
def next : LexM (Option Token) := do
  let ahead ← match (← get).lookahead with
    | some ahead => pure (some ahead)
    | none => read interpolation
  match ahead with
  | none => return none
  | some ahead =>
    modify (consume · ahead)
    return some ahead.token

/-- Consumes tokens up to one that stops it, or to the end. Whether a token stops it may depend on
the tokens before: `go` answers how to go on behind a token, or not at all before it. -/
def collectUntil {β : Type} (go : β → Token → Option β) (b : β) : LexM (List Token) := do
  let tokens ← unfold size (fun b => do
    if ← isDone then
      return ([], none)
    match ← peek interpolation with
    | none => return ([], none)
    | some t =>
      match go b t with
      | none => return ([], none)
      | some b =>
        let t ← next interpolation
        return (t.toList, some b)) b
  modify unconsume
  return tokens

/-- The tokens of an interpolation from behind its opening up to its closing brace, which is
consumed too. -/
def interpolated : LexM (List Token) := do
  let tokens ← collectUntil interpolation
    (fun () t => if t.isOp .closeBrace then none else some ()) ()
  let c := (← get).cursor
  if tokens.isEmpty then
    throw (c.unexpected "expression")
  match c.pass? (Recognizer.literal ['}']) with
  | none => throw (c.unexpected "\"\x7d\"")
  | some c =>
    modify fun l => { l with cursor := c, previousEnd := c }
    return tokens

end Rules

/-- The tokens of an interpolation from behind its opening up to its closing brace, which is
consumed too. The interpolations of a special function inside are read by the same rule, on what is
left of the text. -/
def interpolation : LexM (List Token) :=
  recurse (fun l => l.cursor.left) (do throw (← get).failure) Rules.interpolated

/-- Reads the next token without consuming it. -/
def peek : LexM (Option Token) :=
  Rules.peek interpolation

/-- Consumes the next token. -/
def next : LexM (Option Token) :=
  Rules.next interpolation

/-- Consumes tokens up to one that stops it, or to the end. -/
def collectUntil {β : Type} (go : β → Token → Option β) (b : β) : LexM (List Token) :=
  Rules.collectUntil interpolation go b

/-- Consumes tokens up to the first that satisfies a predicate, or to the end. -/
def takeUntil (p : Token → Bool) : LexM (List Token) :=
  collectUntil (fun () t => if p t then none else some ()) ()

/-- Consumes all tokens. -/
def all : LexM (List Token) :=
  unfold size (fun () => do
    match ← next with
    | none => return ([], none)
    | some t => return ([t], some ())) ()

end Lexer

/-- The tokens of a text with their warnings. -/
def tokenize (t : Text) (options : Options := {}) :
    Except SyntaxError (List Token × List Deprecation) :=
  match Lexer.all (.ofText t options.line 0 options) with
  | .ok tokens l => .ok (tokens, l.warnings)
  | .error e _ => .error e

end Stylesheet
