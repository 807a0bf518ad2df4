import Stylesheet.Grammar.Production

/-!
# Selectors

Selectors are checked, but kept as text. A selector is a chain of sequences, and a sequence is a run
of pieces without space between them: names of elements, identifiers behind `#`, classes,
attributes, negations, pseudo-classes, `&` and interpolations. What a selector may hold outside this
grammar, such as the percentages of keyframes, is taken as a run of expression tokens.
-/

namespace Stylesheet.Grammar

namespace Selector

/-- The name of an element, or any element. -/
def element : Recognizer :=
  (char '*').orElse Recognizer.identifier

/-- The name of a single element, behind its hash sign. -/
def hashName : Recognizer :=
  (char '#').andThen Recognizer.name

/-- A class. -/
def className : Recognizer :=
  (char '.').andThen Recognizer.identifier

/-- The operator between an attribute and its value. -/
def attributeOp : Recognizer :=
  (Recognizer.optional (Recognizer.one fun c =>
    c == '~' || c == '|' || c == '^' || c == '$' || c == '*')).andThen (char '=')

/-- The beginning of a negation. -/
def notHead : Recognizer :=
  Recognizer.caseless ":not(".toList

/-- The mark of a pseudo-class or a pseudo-element. -/
def pseudoMark : Recognizer :=
  (char ':').andThen (Recognizer.optional (char ':'))

/-- A sign that combines two sequences. -/
def combinator : Recognizer :=
  Recognizer.one fun c => c == '+' || c == '>' || c == '~'

/-- Passes a class if one comes next. -/
def classPiece : Production Bool := do
  if ← passes className then
    return true
  else if ← sees (Recognizer.literal ['.', '#', '{']) then
    let _ ← passes (char '.')
    interpolation
  else
    return false

/-- Passes an attribute `[name]` or `[name op value]` if one comes next. -/
def attributePiece : Production Bool := do
  unless ← passes (char '[') do
    return false
  let _ ← skipTrivia
  unless ← passes Recognizer.identifier <||> interpolation do
    fail "identifier"
  let _ ← skipTrivia
  if ← passes attributeOp then
    let _ ← skipTrivia
    unless ← passes (Recognizer.identifier.orElse Recognizer.quoted) <||> interpolation do
      fail "identifier or string"
    let _ ← skipTrivia
  expect ']'
  return true

/-- Passes a negation `:not(…)` of a sequence if one comes next. -/
def negationPiece (sequence : Production Bool) : Production Bool := do
  unless ← passes notHead do
    return false
  let _ ← skipTrivia
  unless ← sequence do
    fail "selector"
  let _ ← skipTrivia
  expect ')'
  return true

/-- Passes a pseudo-class or pseudo-element if one comes next. Its argument is taken whole. -/
def pseudoPiece : Production Bool := do
  let start ← here
  unless ← passes pseudoMark do
    return false
  unless ← passes Recognizer.identifier <||> interpolation do
    moveTo start
    return false
  if ← passes (char '(') then
    unless ← passes Text.balancedLength? do
      fail "\")\""
  return true

/-- Passes a piece of a sequence if one comes next. -/
def piece (sequence : Production Bool) : Production Bool :=
  passes (element.orElse (hashName.orElse (char '&'))) <||> classPiece <||>
    attributePiece <||> negationPiece sequence <||> pseudoPiece <||> interpolation

/-- Passes a run of expression tokens up to the next operator, if it is not empty. Where the tokens
cannot be read it declines. -/
def run : Production Bool := fun s =>
  let isOp (t : Token) : Bool := match t.kind with
    | .op _ => true
    | _ => false
  match lexing (Lexer.takeUntil isOp) s with
  | .ok (tokens, _) s' => if tokens.isEmpty then .ok false s else .ok true s'
  | .error _ _ => .ok false s

/-- Passes a sequence if one comes next, where negations hold sequences by the rule given. -/
def sequenceBy (sequence : Production Bool) : Production Bool := do
  let start ← here
  repeatWhile State.size (piece sequence)
  if start.offset < (← here).offset then
    return true
  else
    run

/-- Passes a sequence of pieces if one comes next. -/
def sequence : Production Bool :=
  recurse State.size (fail "selector") sequenceBy

/-- Passes a combinator and the sequence behind it, or just a sequence behind white space. -/
def continuation : Production Bool := do
  let start ← here
  let _ ← skipTrivia
  let combined ← passes combinator
  let _ ← skipTrivia
  if ← sequence then
    return true
  else if combined then
    fail "selector"
  else
    moveTo start
    return false

/-- Sequences with combinators between them and perhaps before them. -/
def selector : Production Unit := do
  if ← passes combinator then
    let _ ← skipTrivia
  unless ← sequence do
    fail "selector"
  repeatWhile State.size continuation

/-- Passes a comma and the selector behind it, if a comma comes next. -/
def alternative : Production Bool := do
  let start ← here
  let _ ← skipTrivia
  if ← passes (char ',') then
    let _ ← skipTrivia
    selector
    return true
  else
    moveTo start
    return false

/-- Selectors with commas between them. -/
def group : Production Unit := do
  selector
  repeatWhile State.size alternative

/-- The text of a group of selectors. -/
def groupText : Production Text := do
  let start ← here
  group
  return ((← here).textSince start).trim

end Selector
end Stylesheet.Grammar
