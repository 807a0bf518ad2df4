import Stylesheet.Grammar.Expression
import Stylesheet.Grammar.Selector

/-!
# Directives

A directive starts with `@` and a name. Block definitions and their uses, branches, loops and the
directives for debugging have forms of their own. Every other directive is kept with the text of its
argument and its block, if it has them.
-/

namespace Stylesheet.Grammar

namespace Directive

/-- One item of a list in parentheses, with whether another follows. Commas separate the items. -/
def item {α : Type} (p : Production α) : Production (List α × Option Unit) := do
  let a ← p
  let _ ← skipTrivia
  if ← passes (char ',') then
    return ([a], some ())
  else
    expect ')'
    return ([a], none)

/-- A list in parentheses. -/
def list {α : Type} (p : Production α) : Production (List α) := do
  expect '('
  let _ ← skipTrivia
  if ← passes (char ')') then
    return []
  else
    unfold State.size (fun () => item p) ()

/-- A parameter `$name`, with `: value` if it has a default value. -/
def parameter : Production Parameter := do
  let _ ← skipTrivia
  let name ← variableName
  let _ ← skipTrivia
  if ← passes (char ':') then
    return ⟨name, some (← expression .argument)⟩
  else
    return ⟨name, none⟩

/-- A block definition, behind its `@mixin`. -/
def definition (block : Production (List Node)) (line : Nat) : Production Node := do
  let _ ← skipTrivia
  let name ← identifier
  let _ ← skipTrivia
  let parameters ← if ← sees (char '(') then list parameter else pure []
  let _ ← skipTrivia
  return ⟨.definition ⟨name, parameters⟩, line, ← block⟩

/-- The use of a block definition, behind its `@include`. -/
def inclusion (line : Nat) : Production Node := do
  let _ ← skipTrivia
  let name ← identifier
  let behind ← here
  let _ ← skipTrivia
  if ← sees (char '(') then
    return .leaf (.inclusion name (← list (expression .argument))) line
  else
    moveTo behind
    return .leaf (.inclusion name []) line

/-- A branch without what follows it. -/
structure Alternative where
  condition : Option Expression
  line : Nat
  children : List Node

/-- An `@else` with its condition and block, if one comes next, with whether another may follow. -/
def alternative (block : Production (List Node)) :
    Production (List Alternative × Option Unit) := do
  let start ← here
  let _ ← skipTrivia
  let line := (← here).line
  if ← keyword "@else" then
    let _ ← skipTrivia
    let condition ← if ← keyword "if" then some <$> expression .statement else pure none
    let _ ← skipTrivia
    let children ← block
    return ([⟨condition, line, children⟩], if condition.isSome then some () else none)
  else
    moveTo start
    return ([], none)

/-- The branches of a list, each standing where the one before it fails. -/
def chain (alternatives : List Alternative) : Option Node :=
  alternatives.foldr
    (fun a otherwise => some ⟨.branch a.condition otherwise, a.line, a.children⟩) none

/-- A branch and those behind it, behind its `@if`. -/
def branch (block : Production (List Node)) (line : Nat) : Production Node := do
  let condition ← expression .statement
  let _ ← skipTrivia
  let children ← block
  let alternatives ← unfold State.size (fun () => alternative block) ()
  return ⟨.branch (some condition) (chain alternatives), line, children⟩

/-- A loop, behind its `@while`. -/
def loop (block : Production (List Node)) (line : Nat) : Production Node := do
  let condition ← expression .statement
  let _ ← skipTrivia
  return ⟨.loop condition, line, ← block⟩

/-- The argument of a general directive, as text: an expression, or else selectors. -/
def value : Production (Option Text) := do
  let behind ← here
  let _ ← skipTrivia
  let start ← here
  if start.atEnd || start.sees (Recognizer.one fun c => c == ';' || c == '{' || c == '}') then
    moveTo behind
    return none
  else
    asExpression start <|> some <$> Selector.groupText
where
  /-- The text of an expression. Where there is none, the place is given back. -/
  asExpression (start : Cursor) : Production (Option Text) := fun s =>
    match expression .statement s with
    | .ok e s' => .ok (some e.text) s'
    | .error e s' => .error e { s' with cursor := start }

/-- A general directive, behind its name. -/
def atRule (block : Production (List Node)) (name : Text) (line : Nat) : Production Node := do
  let kind := NodeKind.atRule name (← value)
  let behind ← here
  let _ ← skipTrivia
  if ← sees (char '{') then
    return ⟨kind, line, ← block⟩
  else
    moveTo behind
    return .leaf kind line

end Directive

/-- A directive. -/
def directive (block : Production (List Node)) : Production Node := do
  let line := (← here).line
  expect '@'
  let name ← identifier
  match String.ofList name with
  | "mixin" => Directive.definition block line
  | "include" => Directive.inclusion line
  | "if" => Directive.branch block line
  | "else" => throw ⟨.strayElse, line⟩
  | "while" => Directive.loop block line
  | "debug" => return .leaf (.debug (← expression .statement)) line
  | "warn" => return .leaf (.warn (← expression .statement)) line
  | _ => Directive.atRule block name line

end Stylesheet.Grammar
