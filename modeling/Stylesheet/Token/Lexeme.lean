import Stylesheet.Text.Escape
import Stylesheet.Text.Name
import Stylesheet.Text.Trivia
import Stylesheet.Token.Basic

/-!
# The text of tokens

A lexeme is a token as it is found at the front of a text: what it is, and how many characters it
takes. The rules are tried in a fixed order, and the first that fits decides. Special functions are
not among them, since the interpolations inside have to be read as tokens; only the beginning of one
is recognised here. They stand between the rules of `Lexeme.leading?` and `Lexeme.trailing?`.
-/

namespace Stylesheet

/-- A token at the front of a text. -/
structure Lexeme where
  kind : TokenKind
  /-- The number of characters it takes. -/
  length : Nat
  /-- The quotes of a string that is cut short by an interpolation. -/
  opens : Option Quote := none

/-! ### Strings -/

/-- Where a segment of a string ends. -/
inductive SegmentEnd
  /-- At the closing quote, which belongs to the segment. -/
  | closed
  /-- Before an interpolation. -/
  | interpolated
  deriving DecidableEq, Repr

/-- The number of characters of a string up to where its next segment ends. An interpolation whose
first character is the closing quote is no interpolation. -/
def segmentEnd? (q : Quote) : Text → Option (Nat × SegmentEnd)
  | [] => none
  | '\\' :: _ :: t => (segmentEnd? q t).map fun (n, e) => (n + 2, e)
  | c :: t =>
    if c = q.char then some (0, .closed)
    else if c = '#' ∧ t.head? = some '{' ∧ t.tail.head? ≠ some q.char then some (0, .interpolated)
    else (segmentEnd? q t).map fun (n, e) => (n + 1, e)

namespace Lexeme

/-- The segment of a string that starts here, behind the opening quote or an interpolation. -/
def segment? (q : Quote) (t : Text) : Option Lexeme :=
  match segmentEnd? q t with
  | some (n, .closed) => some ⟨.string (Text.unescape (t.take n)) q, n + 1, none⟩
  | some (n, .interpolated) => some ⟨.string (Text.unescape (t.take n)) q, n, some q⟩
  | none => none

/-- A string, or its first segment. -/
def string? (q : Quote) : Text → Option Lexeme
  | [] => none
  | c :: t =>
    if c = q.char then
      (segment? q t).map fun lexeme => { lexeme with length := lexeme.length + 1 }
    else
      none

/-! ### Variables and numbers -/

/-- A variable or a flag. The legacy form is also that of a flag, and the one flag of expressions
may have white space after its `!`. -/
def reference? : Text → Option Lexeme
  | [] => none
  | c :: t =>
    if c = '$' ∨ c = '!' then
      match Recognizer.identifier t with
      | some n => some { kind := .var (Text.unescape (t.take n)) (c = '!'), length := n + 1 }
      | none => if c = '!' then spacedFlag? t else none
    else
      none
where
  /-- The flag `important` behind white space. -/
  spacedFlag? (t : Text) : Option Lexeme := do
    let n ← Recognizer.blanks t
    let m ← (Recognizer.caseless Flag.important.word).notBefore isNameChar (t.drop n)
    return { kind := .var ((t.drop n).take m) true, length := n + m + 1 }

/-- A decimal number, with a sign and a unit if it has them. -/
def number? (t : Text) : Option Lexeme :=
  let negative := t.head? = some '-'
  let digits := if negative then t.drop 1 else t
  let whole := digits.takeWhile isDecimalDigit
  let fraction := match digits.dropWhile isDecimalDigit with
    | '.' :: t => t.takeWhile isDecimalDigit
    | _ => []
  if whole.isEmpty && fraction.isEmpty then none
  else
    let size := whole.length + if fraction.isEmpty then 0 else fraction.length + 1
    let unit := (digits.drop size).takeWhile fun c => c.isAlpha || c == '%'
    some {
      kind :=
        .number (.ofDecimal negative whole fraction) (if unit.isEmpty then none else some unit)
      length := (if negative then 1 else 0) + size + unit.length }

/-! ### Words -/

/-- A color. Six digits are preferred to three, and nothing that continues a name may follow. -/
def color? : Text → Option Lexeme
  | '#' :: t => do
    let n := (t.takeWhile isHexDigit).length
    let n ← if 6 ≤ n then some 6 else if 3 ≤ n then some 3 else none
    let color ← Color.ofHex? (t.take n)
    if (t.drop n).head?.any isNameChar then none
    else some { kind := .color color, length := n + 1 }
  | _ => none

/-- A word that nothing continues. -/
def word? (word : String) (kind : TokenKind) (t : Text) : Option Lexeme :=
  ((Recognizer.literal word.toList).notBefore isNameChar t).map fun n => { kind, length := n }

/-- A truth value. -/
def bool? (t : Text) : Option Lexeme :=
  word? "true" (.bool true) t <|> word? "false" (.bool false) t

/-- An operator that is a word. -/
def wordOp? (t : Text) : Option Lexeme :=
  word? "and" (.op .and) t <|> word? "or" (.op .or) t <|> word? "not" (.op .not) t

/-- An identifier. -/
def ident? (t : Text) : Option Lexeme :=
  (Recognizer.identifier t).map fun n =>
    { kind := .ident (Text.unescape (t.take n)), length := n }

/-- An operator that is a symbol. Inside an interpolation a closing brace closes it. -/
def symbol? (inside : Bool) (t : Text) : Option Lexeme :=
  (Op.symbols.find? fun op => op.text.toList.isPrefixOf t).map fun op =>
    let kind := if op = .closeBrace ∧ inside then .op .closeInterpolation else .op op
    { kind, length := op.text.length }

end Lexeme

/-! ### Spans that are kept as text -/

namespace Text

/-- The number of characters of a quoted text from behind its opening quote to its end. A line may
not end right after a backslash. -/
def quotedLength? (q : Char) : Text → Option Nat
  | [] => none
  | '\\' :: c :: t => if c = '\n' then none else (quotedLength? q t).map (· + 2)
  | c :: t => if c = q then some 1 else (quotedLength? q t).map (· + 1)

/-- A character that an address without quotes may hold. A backslash is one of them. -/
def isAddressChar (c : Char) : Bool :=
  c == '!' || c == '#' || c == '$' || c == '%' || c == '&' || ('*' ≤ c && c ≤ '~') || 0x7F < c.toNat

/-- The number of characters of an address without quotes and the parenthesis that closes it,
from here and from one character further on. An escape is tried first, then a single character,
and then the end, before which there may be white space. -/
def addressLengths : Text → Option Nat × Option Nat
  | [] => (none, none)
  | c :: t =>
    let (next, afterNext) := addressLengths t
    let escaped := if c = '\\' ∧ t.head?.any (· != '\n') then afterNext.map (· + 2) else none
    let single := if isAddressChar c then next.map (· + 1) else none
    (escaped <|> single <|> closing (c :: t), next)
where
  /-- White space and a closing parenthesis. -/
  closing : Recognizer :=
    (Recognizer.run isBlank).andThen (Recognizer.literal [')'])

end Text

namespace Recognizer

/-- A quoted text. -/
def quoted : Recognizer
  | [] => none
  | c :: t => if c = '"' ∨ c = '\'' then (Text.quotedLength? c t).map (· + 1) else none

/-- An address: `url(`, a quoted or bare text and `)`, with white space inside the parentheses. -/
def uri : Recognizer :=
  (caseless "url(".toList).andThen <| (run isBlank).andThen <|
    (quoted.andThen Text.addressLengths.closing).orElse fun t => (Text.addressLengths t).1

/-- At least one and at most a number of characters of a class. -/
def upTo (n : Nat) (p : Char → Bool) : Recognizer :=
  fun t => (run₁ p (t.take n))

/-- A range of code points, with question marks for any digit. -/
def unicodeRange : Recognizer :=
  (one fun c => c == 'U' || c == 'u').andThen <| (literal ['+']).andThen <|
    (upTo 6 fun c => isHexDigit c || c == '?').andThen <|
      optional ((literal ['-']).andThen (upTo 6 isHexDigit))

/-- The beginning of a special function, up to its opening parenthesis: `calc`, also with a vendor's
name before it, `expression`, or a `progid:` with its path. The case does not matter. -/
def specialHead : Recognizer :=
  (calculation.orElse ((caseless "expression".toList).orElse progid)).andThen (literal ['('])
where
  /-- A letter of any case. -/
  isLetter (c : Char) : Bool := (foldCase c).isLower
  /-- The name of a vendor between hyphens. -/
  vendor : Recognizer :=
    (literal ['-']).andThen <|
      (run₁ fun c => isLetter c || c.isDigit || c == '_').andThen (literal ['-'])
  /-- The name `calc`, and the vendor's name before it. -/
  calculation : Recognizer := (optional vendor).andThen (caseless "calc".toList)
  /-- A `progid:` and its path. -/
  progid : Recognizer :=
    (caseless "progid:".toList).andThen (run fun c => isLetter c || c == '.')

end Recognizer

namespace Lexeme

/-- A span that is kept as text. -/
def span? (form : Recognizer) (kind : Text → TokenKind) (t : Text) : Option Lexeme :=
  (form t).map fun n => { kind := kind (t.take n), length := n }

/-- The rules that come before special functions. -/
def leading? (t : Text) : Option Lexeme :=
  reference? t <|> string? .double t <|> string? .single t <|> number? t <|>
    color? t <|> bool? t <|>
    span? Recognizer.uri .uri t <|> span? Recognizer.unicodeRange .unicodeRange t

/-- The rules that come after special functions. -/
def trailing? (inside : Bool) (t : Text) : Option Lexeme :=
  wordOp? t <|> ident? t <|> symbol? inside t

end Lexeme
end Stylesheet
