import Stylesheet.Grammar.Declaration
import Stylesheet.Grammar.Directive

/-!
# Statements

A stylesheet, and every block in it, is a list of statements: comments, assignments, directives,
declarations and rulesets. A statement that ends in a block stands by itself; any other is separated
from the next by a semicolon.
-/

namespace Stylesheet.Grammar

/-- A comment, if one comes next. -/
def comment : Production (Option Node) := do
  let line := (← here).line
  match ← take? Recognizer.blockComment with
  | some text => return some (.leaf (.comment text false) line)
  | none =>
    match ← take? Recognizer.lineComment with
    | some text => return some (.leaf (.comment text true) line)
    | none => return none

/-- An assignment `$name: value`, guarded by a flag or not. -/
def assignment : Production Node := do
  let line := (← here).line
  let name ← variableName
  let _ ← skipTrivia
  expect ':'
  let value ← expression .statement
  let guarded ← flag .default
  return .leaf (.assignment name value guarded) line

/-- A ruleset: selectors and a block. -/
def ruleset (block : Production (List Node)) : Production Node := do
  let line := (← here).line
  let selector ← Selector.groupText
  let _ ← skipTrivia
  return ⟨.ruleset selector, line, ← block⟩

/-- Whether a statement may end at a place. -/
def atStatementEnd (c : Cursor) : Bool :=
  let c := c.skip Recognizer.trivia
  c.atEnd || c.sees (Recognizer.one fun x => x == ';' || x == '}')

/-- Whether the statement read may end here: it ends in a block, or its end comes next. -/
def State.atEndOfDeclaration (s : State) : Bool :=
  s.atBlockEnd || atStatementEnd s.cursor

/-- A declaration or else a ruleset. An attempt to read a declaration that fails, or that does not
reach the end of a statement, is given up. If there is no ruleset either, the error is that of the
attempt where the text could not have been a selector. -/
def declarationOrRuleset (block : Production (List Node)) : Production Node := fun before =>
  match declaration block before with
  | .ok node s =>
    if s.atEndOfDeclaration then .ok node s
    else ruleset block (s.giveUp before)
  | .error rejected s =>
    match ruleset block (s.giveUp before) with
    | .ok node s => .ok node s
    | .error e s => .error (if rejected.committed then rejected.error else e) s

/-- A statement other than a comment. -/
def statement (block : Production (List Node)) : Production Node := do
  if ← sees (char '$') then
    assignment
  else if ← sees (char '@') then
    directive block
  else
    declarationOrRuleset block

/-- Whether a list of statements ends here: at the end of the text, and in a block also before its
closing brace. -/
def listEnds (nested : Bool) : Production Bool := do
  let c ← here
  return c.atEnd || (nested && c.sees (char '}'))

/-- The next of a list of statements with what separates it from the one after, with whether the
list goes on. -/
def listStep (block : Production (List Node)) (nested : Bool) :
    Production (List Node × Option Unit) := do
  let _ ← passes Recognizer.blanks
  if ← listEnds nested then
    return ([], none)
  if ← passes (char ';') then
    return ([], some ())
  if let some node ← comment then
    return ([node], some ())
  let node ← statement block
  if (← get).atBlockEnd then
    return ([node], some ())
  let _ ← skipTrivia
  unless ← passes (char ';') <||> listEnds nested do
    fail "\";\""
  return ([node], some ())

/-- A list of statements, in a block or not, where the blocks in it are read by the rule given. -/
def statements (block : Production (List Node)) (nested : Bool) : Production (List Node) :=
  unfold State.size (fun () => listStep block nested) ()

/-- A block: statements in braces. The blocks in it are read by the rule given. -/
def blockBy (block : Production (List Node)) : Production (List Node) := do
  expect '{'
  let children ← statements block true
  expect '}'
  modify fun s => { s with blockEnd := some s.cursor.offset }
  return children

/-- A block: statements in braces. -/
def block : Production (List Node) :=
  recurse State.size (fail "\"\x7b\"") blockBy

/-- A whole stylesheet. -/
def document : Production Node := do
  let line := (← here).line
  let children ← statements block false
  return ⟨.root, line, children⟩

end Stylesheet.Grammar
