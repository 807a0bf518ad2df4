import Stylesheet.Binary64
import Stylesheet.Text.Cursor
import Stylesheet.Token.Color

/-!
# Tokens

The tokens of an expression. Most stand for one piece of text. A string with interpolations gives a
token for each of its segments, with the tokens of the interpolations between them. A special
function such as `calc(…)` is one token whatever it holds: its text is kept as it is, and only the
interpolations in it are read as tokens.
-/

namespace Stylesheet

/-- The style of quotes around a string. -/
inductive Quote
  | double
  | single
  deriving DecidableEq, Repr

/-- The character of a quote. -/
def Quote.char : Quote → Char
  | double => '"'
  | single => '\''

/-- Operators and punctuation. A closing brace is told apart by what it closes. -/
inductive Op
  | openInterpolation
  | equal
  | notEqual
  | greaterEqual
  | lessEqual
  | plus
  | minus
  | times
  | divide
  | modulo
  | assign
  | colon
  | openParen
  | closeParen
  | comma
  | greater
  | less
  | semicolon
  | openBrace
  | closeInterpolation
  | closeBrace
  | and
  | or
  | not
  deriving DecidableEq, Repr

namespace Op

/-- The source text of an operator. -/
def text : Op → String
  | openInterpolation => "#\x7b"
  | equal => "=="
  | notEqual => "!="
  | greaterEqual => ">="
  | lessEqual => "<="
  | plus => "+"
  | minus => "-"
  | times => "*"
  | divide => "/"
  | modulo => "%"
  | assign => "="
  | colon => ":"
  | openParen => "("
  | closeParen => ")"
  | comma => ","
  | greater => ">"
  | less => "<"
  | semicolon => ";"
  | openBrace => "\x7b"
  | closeInterpolation => "\x7d"
  | closeBrace => "\x7d"
  | and => "and"
  | or => "or"
  | not => "not"

/-- The operators that are not words, a longer one before its own beginning. -/
def symbols : List Op :=
  [openInterpolation, equal, notEqual, greaterEqual, lessEqual, plus, minus, times, divide, modulo,
    assign, colon, openParen, closeParen, comma, greater, less, semicolon, openBrace, closeBrace]

end Op

mutual

/-- A token and where it starts. -/
structure Token where
  kind : TokenKind
  location : Location

/-- What a token is. -/
inductive TokenKind
  /-- A variable, written `$name`, or `!name` in the legacy form that flags share. -/
  | var (name : Text) (legacy : Bool)
  /-- A string, or a segment of one between interpolations. -/
  | string (value : Text) (quote : Quote)
  | number (value : Binary64) (unit : Option Text)
  | color (value : Color)
  | bool (value : Bool)
  /-- An address `url(…)`, as written. -/
  | uri (text : Text)
  | unicodeRange (text : Text)
  /-- A function whose text is kept as it is. -/
  | special (pieces : List Piece)
  | ident (name : Text)
  | op (op : Op)

/-- A part of a special function. -/
inductive Piece
  /-- Text that is kept as it is. -/
  | raw (text : Text)
  /-- The tokens of an interpolation. -/
  | interpolation (tokens : List Token)

end

/-- The line of a token. -/
def Token.line (t : Token) : Nat :=
  t.location.line

/-- Whether a token is a certain operator. -/
def Token.isOp (t : Token) (o : Op) : Bool :=
  match t.kind with
  | .op o' => o' = o
  | _ => false

/-! ### Equality of tokens -/

mutual

/-- Whether two tokens are equal. -/
def Token.same : Token → Token → Bool
  | ⟨k, l⟩, ⟨k', l'⟩ => k.same k' && l = l'

/-- Whether two kinds of token are equal. -/
def TokenKind.same : TokenKind → TokenKind → Bool
  | .var n b, .var n' b' => n = n' && b = b'
  | .string v q, .string v' q' => v = v' && q = q'
  | .number v u, .number v' u' => v = v' && u = u'
  | .color v, .color v' => v = v'
  | .bool v, .bool v' => v = v'
  | .uri t, .uri t' => t = t'
  | .unicodeRange t, .unicodeRange t' => t = t'
  | .special ps, .special ps' => Piece.sameList ps ps'
  | .ident n, .ident n' => n = n'
  | .op o, .op o' => o = o'
  | _, _ => false

/-- Whether two parts of a special function are equal. -/
def Piece.same : Piece → Piece → Bool
  | .raw t, .raw t' => t = t'
  | .interpolation ts, .interpolation ts' => Token.sameList ts ts'
  | _, _ => false

/-- Whether two lists of tokens are equal. -/
def Token.sameList : List Token → List Token → Bool
  | [], [] => true
  | t :: ts, u :: us => t.same u && Token.sameList ts us
  | _, _ => false

/-- Whether two lists of parts are equal. -/
def Piece.sameList : List Piece → List Piece → Bool
  | [], [] => true
  | p :: ps, q :: qs => p.same q && Piece.sameList ps qs
  | _, _ => false

end

mutual

theorem Token.same_iff : ∀ t u : Token, t.same u = true ↔ t = u
  | ⟨k, l⟩, ⟨k', l'⟩ => by simp [Token.same, TokenKind.same_iff k k']

theorem TokenKind.same_iff : ∀ k k' : TokenKind, k.same k' = true ↔ k = k'
  | .special ps, k' => by cases k' <;> simp [TokenKind.same, Piece.sameList_iff ps]
  | .var .., k' => by cases k' <;> simp [TokenKind.same]
  | .string .., k' => by cases k' <;> simp [TokenKind.same]
  | .number .., k' => by cases k' <;> simp [TokenKind.same]
  | .color _, k' => by cases k' <;> simp [TokenKind.same]
  | .bool _, k' => by cases k' <;> simp [TokenKind.same]
  | .uri _, k' => by cases k' <;> simp [TokenKind.same]
  | .unicodeRange _, k' => by cases k' <;> simp [TokenKind.same]
  | .ident _, k' => by cases k' <;> simp [TokenKind.same]
  | .op _, k' => by cases k' <;> simp [TokenKind.same]

theorem Piece.same_iff : ∀ p q : Piece, p.same q = true ↔ p = q
  | .raw _, q => by cases q <;> simp [Piece.same]
  | .interpolation ts, q => by cases q <;> simp [Piece.same, Token.sameList_iff ts]

theorem Token.sameList_iff : ∀ ts us : List Token, Token.sameList ts us = true ↔ ts = us
  | [], us => by cases us <;> simp [Token.sameList]
  | t :: ts, us => by
    cases us <;> simp [Token.sameList, Token.same_iff t, Token.sameList_iff ts]

theorem Piece.sameList_iff : ∀ ps qs : List Piece, Piece.sameList ps qs = true ↔ ps = qs
  | [], qs => by cases qs <;> simp [Piece.sameList]
  | p :: ps, qs => by
    cases qs <;> simp [Piece.sameList, Piece.same_iff p, Piece.sameList_iff ps]

end

instance : DecidableEq Token := fun t u => decidable_of_iff _ (Token.same_iff t u)

instance : DecidableEq TokenKind := fun k k' => decidable_of_iff _ (TokenKind.same_iff k k')

instance : DecidableEq Piece := fun p q => decidable_of_iff _ (Piece.same_iff p q)

end Stylesheet
