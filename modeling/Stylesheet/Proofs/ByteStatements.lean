import Stylesheet.Parse
import Stylesheet.Proofs.ByteProductions

/-!
# Stylesheets by their bytes

Directives, declarations and lists of statements by bytes, on top of the productions that read no
blocks.  An attempt that is given up is gone back from as any other place is, so the place where it
began has to lie behind the place where it ended (`ByteGrammar.giveUp`).  Whether a statement may
end at a place is found on a copy of the state.

Parsing by bytes has no result where it asks for what does not exist (`parseByBytes?`).  It always
has one, and it is the one of parsing by characters (`parseByBytes?_eq`).  `no_run_panics` says this
of the parser together with all runs of a lexer.  The rules for blocks are parameters of the
productions that hold blocks, one for each of the two.
-/
namespace Stylesheet

open Grammar (State Production Attempt Rejected)

/-- An attempt to read something by bytes that may turn out to be something else. -/
abbrev ByteAttempt := EStateM (Fault Rejected) State

namespace ByteGrammar

open Grammar (char)

/-! ### Directives -/

namespace Directive

open Grammar.Directive (Alternative chain)

/-- One item of a list in parentheses, with whether another follows. -/
def item {α : Type} (p : ByteProduction α) : ByteProduction (List α × Option Unit) := do
  let a ← p
  let _ ← skipTrivia
  if ← passes (char ',') then
    return ([a], some ())
  else
    expect ')'
    return ([a], none)

/-- A list in parentheses. -/
def list {α : Type} (p : ByteProduction α) : ByteProduction (List α) := do
  expect '('
  let _ ← skipTrivia
  if ← passes (char ')') then
    return []
  else
    unfold State.size (fun () => item p) ()

/-- A parameter, with its default value if it has one. -/
def parameter : ByteProduction Parameter := do
  let _ ← skipTrivia
  let name ← variableName
  let _ ← skipTrivia
  if ← passes (char ':') then
    return ⟨name, some (← expression .argument)⟩
  else
    return ⟨name, none⟩

/-- A block definition, behind its name. -/
def definition (block : ByteProduction (List Node)) (line : Nat) : ByteProduction Node := do
  let _ ← skipTrivia
  let name ← identifier
  let _ ← skipTrivia
  let parameters ← if ← sees (char '(') then list parameter else pure []
  let _ ← skipTrivia
  return ⟨.definition ⟨name, parameters⟩, line, ← block⟩

/-- The use of a block definition, behind its name. -/
def inclusion (line : Nat) : ByteProduction Node := do
  let _ ← skipTrivia
  let name ← identifier
  let behind ← here
  let _ ← skipTrivia
  if ← sees (char '(') then
    return .leaf (.inclusion name (← list (expression .argument))) line
  else
    rewind behind
    return .leaf (.inclusion name []) line

/-- A further branch with its condition and block, if one comes next, with whether another may
follow. -/
def alternative (block : ByteProduction (List Node)) :
    ByteProduction (List Alternative × Option Unit) := do
  let start ← here
  let _ ← skipTrivia
  let line := (← here).line
  if ← keyword "@else" then
    let _ ← skipTrivia
    let condition ← if ← keyword "if" then some <$> expression .statement else pure none
    let _ ← skipTrivia
    let children ← block
    return ([⟨condition, line, children⟩], if condition.isSome then some () else none)
  else
    rewind start
    return ([], none)

/-- A branch and those behind it. -/
def branch (block : ByteProduction (List Node)) (line : Nat) : ByteProduction Node := do
  let condition ← expression .statement
  let _ ← skipTrivia
  let children ← block
  let alternatives ← unfold State.size (fun () => alternative block) ()
  return ⟨.branch (some condition) (chain alternatives), line, children⟩

/-- A loop. -/
def loop (block : ByteProduction (List Node)) (line : Nat) : ByteProduction Node := do
  let condition ← expression .statement
  let _ ← skipTrivia
  return ⟨.loop condition, line, ← block⟩

/-- The text of an expression from a place on, or else of selectors from there. -/
def text (start : Cursor) : ByteProduction (Option Text) := do
  match ← attempt (expression .statement) with
  | .ok e => return some e.text
  | .error _ =>
    rewind start
    some <$> Selector.groupText

/-- The argument of a general directive, as text. -/
def value : ByteProduction (Option Text) := do
  let behind ← here
  let _ ← skipTrivia
  let start ← here
  if start.ends || (← sees (Recognizer.one fun c => c == ';' || c == '{' || c == '}')) then
    rewind behind
    return none
  else
    text start

/-- A general directive, behind its name. -/
def atRule (block : ByteProduction (List Node)) (name : Text) (line : Nat) :
    ByteProduction Node := do
  let kind := NodeKind.atRule name (← value)
  let behind ← here
  let _ ← skipTrivia
  if ← sees (char '{') then
    return ⟨kind, line, ← block⟩
  else
    rewind behind
    return .leaf kind line

end Directive

/-- A directive. -/
def directive (block : ByteProduction (List Node)) : ByteProduction Node := do
  let line := (← here).line
  expect '@'
  let name ← identifier
  let word := String.ofList name
  if word = "mixin" then
    Directive.definition block line
  else if word = "include" then
    Directive.inclusion line
  else if word = "if" then
    Directive.branch block line
  else if word = "else" then
    throw (.error ⟨.strayElse, line⟩)
  else if word = "while" then
    Directive.loop block line
  else if word = "debug" then
    return .leaf (.debug (← expression .statement)) line
  else if word = "warn" then
    return .leaf (.warn (← expression .statement)) line
  else
    Directive.atRule block name line

/-! ### Declarations -/

/-- A production as a part of an attempt, which is committed or not while it runs. -/
def during {α : Type} (committed : Bool) (p : ByteProduction α) : ByteAttempt α := fun s =>
  match p s with
  | .ok a t => .ok a t
  | .error (.error e) t => .error (.error ⟨e, committed⟩) t
  | .error .panic t => .error .panic t

/-- Passes a piece of the name of a property if one comes next. -/
def namePiece : ByteProduction Bool :=
  passes Recognizer.identifier <||> interpolation

/-- The name of a property. -/
def propertyName : ByteProduction Unit := do
  let start ← here
  repeatWhile State.size namePiece
  unless start.offset < (← here).offset do
    fail "identifier"

/-- The value of a declaration, its flag, and its block of nested declarations if it has one. -/
def declarationValue (block : ByteProduction (List Node)) (name : Text) (line : Nat)
    (spaced : Bool) :
    ByteProduction Node := do
  let value ←
    if ← pure spaced <&&> sees (char '{') then pure none else some <$> expression .statement
  let important ← flag .important
  let kind := NodeKind.property name value important
  let behind ← here
  let _ ← skipTrivia
  if ← sees (char '{') then
    unless spaced do
      fail "\";\""
    return ⟨kind, line, ← block⟩
  else
    rewind behind
    return .leaf kind line

/-- An attempt to read a declaration. -/
def declaration (block : ByteProduction (List Node)) : ByteAttempt Node := do
  let start ← during false here
  let marked ← during false (passes Grammar.hack)
  let name ← during marked do
    propertyName
    let name ← since start
    let _ ← skipTrivia
    expect ':'
    return name
  let spaced ← during marked skipTrivia
  let named ← during marked (sees Recognizer.identifier)
  during (marked || spaced || !named) (declarationValue block name start.line spaced)

/-! ### Statements -/

/-- A comment, if one comes next. -/
def comment : ByteProduction (Option Node) := do
  let line := (← here).line
  match ← take? Recognizer.blockComment with
  | some text => return some (.leaf (.comment text false) line)
  | none =>
    match ← take? Recognizer.lineComment with
    | some text => return some (.leaf (.comment text true) line)
    | none => return none

/-- An assignment, guarded by a flag or not. -/
def assignment : ByteProduction Node := do
  let line := (← here).line
  let name ← variableName
  let _ ← skipTrivia
  expect ':'
  let value ← expression .statement
  let guarded ← flag .default
  return .leaf (.assignment name value guarded) line

/-- A ruleset: selectors and a block. -/
def ruleset (block : ByteProduction (List Node)) : ByteProduction Node := do
  let line := (← here).line
  let selector ← Selector.groupText
  let _ ← skipTrivia
  return ⟨.ruleset selector, line, ← block⟩

/-- Whether the end of a statement comes next, behind white space and comments. -/
def atStatementEnd : ByteProduction Bool := do
  let _ ← skipTrivia
  if (← here).ends then
    return true
  else
    sees (Recognizer.one fun x => x == ';' || x == '}')

/-- Whether the statement read may end here: it ends in a block, or its end comes next. -/
def atEndOfDeclaration : ByteProduction Bool := do
  if (← get).atBlockEnd then
    return true
  else
    probe atStatementEnd

/-- Gives up what was read since an earlier state. -/
def giveUp (before : State) : ByteProduction Unit := do
  let c ← demand ((← here).rewind? before.cursor)
  modify fun s => s.giveUp { before with cursor := c }

/-- A production whose errors give way to another one, if there is one. -/
def orFail {α : Type} (p : ByteProduction α) (instead : Option SyntaxError) :
    ByteProduction α := fun s =>
  match p s with
  | .error (.error e) t => .error (.error (instead.getD e)) t
  | r => r

/-- A declaration or else a ruleset. -/
def declarationOrRuleset (block : ByteProduction (List Node)) : ByteProduction Node := do
  let before ← get
  match ← attempt (declaration block) with
  | .ok node =>
    if ← atEndOfDeclaration then
      return node
    else
      giveUp before
      ruleset block
  | .error rejected =>
    giveUp before
    orFail (ruleset block) (if rejected.committed then some rejected.error else none)

/-- A statement other than a comment. -/
def statement (block : ByteProduction (List Node)) : ByteProduction Node := do
  if ← sees (char '$') then
    assignment
  else if ← sees (char '@') then
    directive block
  else
    declarationOrRuleset block

/-- Whether a list of statements ends here. -/
def listEnds (nested : Bool) : ByteProduction Bool := do
  if (← here).ends then
    return true
  else
    pure nested <&&> sees (char '}')

/-- The next of a list of statements with what separates it from the one after, with whether the
list goes on. -/
def listStep (block : ByteProduction (List Node)) (nested : Bool) :
    ByteProduction (List Node × Option Unit) := do
  let _ ← passes Recognizer.blanks
  if ← listEnds nested then
    return ([], none)
  if ← passes (char ';') then
    return ([], some ())
  if let some node ← comment then
    return ([node], some ())
  let node ← statement block
  if (← get).atBlockEnd then
    return ([node], some ())
  let _ ← skipTrivia
  unless ← passes (char ';') <||> listEnds nested do
    fail "\";\""
  return ([node], some ())

/-- A list of statements, in a block or not, where the blocks in it are read by the rule given. -/
def statements (block : ByteProduction (List Node)) (nested : Bool) : ByteProduction (List Node) :=
  unfold State.size (fun () => listStep block nested) ()

/-- A block, where the blocks in it are read by the rule given. -/
def blockBy (block : ByteProduction (List Node)) : ByteProduction (List Node) := do
  expect '{'
  let children ← statements block true
  expect '}'
  modify fun s => { s with blockEnd := some s.cursor.offset }
  return children

/-- A block: statements in braces. -/
def block : ByteProduction (List Node) :=
  recurse State.size (fail "\"\x7b\"") blockBy

/-- A whole stylesheet. -/
def document : ByteProduction Node := do
  let line := (← here).line
  let children ← statements block false
  return ⟨.root, line, children⟩

/-! ### Agreement of directives -/

section
variable {c : Cursor}

theorem agrees_some_expression (stop : Grammar.Stop) :
    Agrees (Ahead c) (some <$> Grammar.expression stop) (some <$> expression stop) :=
  agrees_map (agrees_expression stop)

namespace Directive

theorem agrees_list {α : Type} {p : Production α} {q : ByteProduction α}
    (h : Agrees (Ahead c) p q) : Agrees (Ahead c) (Grammar.Directive.list p) (list q) := by
  refine simulates_after (agrees_expect _) fun _ => simulates_after agrees_skipTrivia fun _ => ?_
  refine simulates_after (agrees_passes _) fun _ => simulates_ite Iff.rfl (simulates_pure rfl) ?_
  refine agrees_unfold (fun _ => simulates_after h fun a => ?_) ()
  refine simulates_after agrees_skipTrivia fun _ => simulates_after (agrees_passes _) fun _ => ?_
  refine simulates_ite Iff.rfl (simulates_pure rfl) ?_
  exact simulates_after (agrees_expect _) fun _ => simulates_pure rfl

theorem agrees_parameter : Agrees (Ahead c) Grammar.Directive.parameter parameter := by
  refine simulates_after agrees_skipTrivia fun _ =>
    simulates_after agrees_variableName fun name => ?_
  refine simulates_after agrees_skipTrivia fun _ => simulates_after (agrees_passes _) fun _ => ?_
  refine simulates_ite Iff.rfl ?_ (simulates_pure rfl)
  exact simulates_after (agrees_expression _) fun _ => simulates_pure rfl

theorem agrees_inclusion (line : Nat) :
    Agrees (Ahead c) (Grammar.Directive.inclusion line) (inclusion line) := by
  refine simulates_after agrees_skipTrivia fun _ => simulates_after agrees_identifier fun name => ?_
  refine agrees_here_bind fun d _ => simulates_after agrees_skipTrivia fun _ => ?_
  refine simulates_after (agrees_sees _) fun _ => simulates_ite Iff.rfl ?_ ?_
  · exact simulates_after (agrees_list (agrees_expression _)) fun _ => simulates_pure rfl
  · exact simulates_after agrees_rewind fun _ => simulates_pure rfl

/-- Where there is no expression, its failure is forgotten and its place is given back. -/
theorem agrees_text {p : Production (Option Text)}
    (hp : p = Grammar.Directive.value.asExpression c) :
    Agrees (Ahead c) (p <|> some <$> Grammar.Selector.groupText) (text c) := by
  refine agrees_of_runs fun s hs => ?_
  rw [Grammar.orElse_apply, hp]
  unfold Grammar.Directive.value.asExpression text
  rw [bind_apply, attempt_apply]
  rcases (agrees_expression .statement).runs hs with
    ⟨e, t, hrun, hrun', ht⟩ | ⟨e, t, hrun, hrun', ht⟩
  · simp only [hrun, hrun']
    exact matched_ok ht
  · simp only [hrun, hrun']
    rw [bind_apply, rewind_apply ht.ahead]
    exact (agrees_map Selector.agrees_groupText).matched (ht.move (.refl c))

theorem agrees_value : Agrees (Ahead c) Grammar.Directive.value value := by
  refine agrees_here_bind fun d _ => simulates_after agrees_skipTrivia fun _ =>
    agrees_of_runs fun s hs => ?_
  have hback : Agrees (Ahead d) (do Grammar.moveTo d; return none)
      (do rewind d; return (none : Option Text)) :=
    simulates_after agrees_rewind fun _ => simulates_pure rfl
  rw [bind_apply, bind_apply, Grammar.here_apply, here_apply]
  simp only
  rw [bind_apply, sees_apply hs.stands]
  have hsees : ∀ form : Recognizer, (form s.cursor.rest).isSome = s.cursor.sees form := fun _ => rfl
  simp only [hs.stands.ends_eq, hsees]
  by_cases hnone : (s.cursor.atEnd ||
      s.cursor.sees (Recognizer.one fun c => c == ';' || c == '{' || c == '}')) = true
  · rw [if_pos hnone, if_pos hnone]
    exact hback.matched hs
  · rw [if_neg hnone, if_neg hnone]
    exact matched_earlier hs.sited hs.ahead ((agrees_text rfl).matched hs.here)

section
variable {block : Production (List Node)} {block' : ByteProduction (List Node)}
  (hblock : ∀ c, Agrees (Ahead c) block block')
include hblock

theorem agrees_definition (line : Nat) :
    Agrees (Ahead c) (Grammar.Directive.definition block line) (definition block' line) := by
  refine simulates_after agrees_skipTrivia fun _ => simulates_after agrees_identifier fun name => ?_
  refine simulates_after agrees_skipTrivia fun _ => simulates_after (agrees_sees _) fun _ => ?_
  have hrest : ∀ ps : List Parameter, Agrees (Ahead c) (do
        let _ ← Grammar.skipTrivia
        return (⟨.definition ⟨name, ps⟩, line, ← block⟩ : Node)) (do
        let _ ← skipTrivia
        return ⟨.definition ⟨name, ps⟩, line, ← block'⟩) := by
    intro ps
    refine simulates_after agrees_skipTrivia fun _ => ?_
    exact simulates_after (hblock c) fun _ => simulates_pure rfl
  exact simulates_ite Iff.rfl (simulates_after (agrees_list agrees_parameter) hrest) (hrest [])

theorem agrees_alternative :
    Agrees (Ahead c) (Grammar.Directive.alternative block) (alternative block') := by
  refine agrees_here_bind fun d _ => simulates_after agrees_skipTrivia fun _ => ?_
  refine agrees_place_bind fun e _ => simulates_after (agrees_keyword _) fun _ =>
    simulates_ite Iff.rfl ?_ ?_
  · have hrest : ∀ condition : Option Expression, Agrees (Ahead d) (do
          let _ ← Grammar.skipTrivia
          let children ← block
          return ([(⟨condition, e.line, children⟩ : Grammar.Directive.Alternative)],
            if condition.isSome then some () else none)) (do
          let _ ← skipTrivia
          let children ← block'
          return ([(⟨condition, e.line, children⟩ : Grammar.Directive.Alternative)],
            if condition.isSome then some () else none)) := by
      intro condition
      refine simulates_after agrees_skipTrivia fun _ => ?_
      exact simulates_after (hblock d) fun _ => simulates_pure rfl
    refine simulates_after agrees_skipTrivia fun _ => simulates_after (agrees_keyword _) fun _ => ?_
    exact simulates_ite Iff.rfl (simulates_after (agrees_some_expression _) hrest) (hrest none)
  · exact simulates_after agrees_rewind fun _ => simulates_pure rfl

theorem agrees_branch (line : Nat) :
    Agrees (Ahead c) (Grammar.Directive.branch block line) (branch block' line) := by
  refine simulates_after (agrees_expression _) fun _ =>
    simulates_after agrees_skipTrivia fun _ => ?_
  refine simulates_after (hblock c) fun _ => ?_
  exact simulates_after (agrees_unfold (fun _ => agrees_alternative hblock) ()) fun _ =>
    simulates_pure rfl

theorem agrees_loop (line : Nat) :
    Agrees (Ahead c) (Grammar.Directive.loop block line) (loop block' line) := by
  refine simulates_after (agrees_expression _) fun _ =>
    simulates_after agrees_skipTrivia fun _ => ?_
  exact simulates_after (hblock c) fun _ => simulates_pure rfl

theorem agrees_atRule (name : Text) (line : Nat) :
    Agrees (Ahead c) (Grammar.Directive.atRule block name line) (atRule block' name line) := by
  refine simulates_after agrees_value fun _ => agrees_here_bind fun d _ => ?_
  refine simulates_after agrees_skipTrivia fun _ => simulates_after (agrees_sees _) fun _ => ?_
  refine simulates_ite Iff.rfl (simulates_after (hblock d) fun _ => simulates_pure rfl) ?_
  exact simulates_after agrees_rewind fun _ => simulates_pure rfl

end
end Directive

/-! ### Agreement of statements -/

theorem agrees_comment : Agrees (Ahead c) Grammar.comment comment := by
  refine agrees_place_bind fun d _ => simulates_after (agrees_take? _) fun text => ?_
  cases text with
  | some text => exact simulates_pure rfl
  | none =>
    refine simulates_after (agrees_take? _) fun text => ?_
    cases text <;> exact simulates_pure rfl

theorem agrees_assignment : Agrees (Ahead c) Grammar.assignment assignment := by
  refine agrees_place_bind fun d _ => simulates_after agrees_variableName fun name => ?_
  refine simulates_after agrees_skipTrivia fun _ => simulates_after (agrees_expect _) fun _ => ?_
  refine simulates_after (agrees_expression _) fun _ => ?_
  exact simulates_after (agrees_flag _) fun _ => simulates_pure rfl

theorem agrees_propertyName : Agrees (Ahead c) Grammar.propertyName propertyName := by
  have hpiece : Agrees (Ahead c) Grammar.namePiece namePiece :=
    agrees_orM (agrees_passes _) agrees_interpolation
  refine agrees_place_bind fun d _ => simulates_after (agrees_repeatWhile hpiece) fun _ => ?_
  exact agrees_place_bind fun e _ => simulates_ite Iff.rfl (simulates_pure rfl) (agrees_fail _)

theorem agrees_listEnds (nested : Bool) :
    Agrees (Ahead c) (Grammar.listEnds nested) (listEnds nested) := by
  refine agrees_of_runs fun s hs => ?_
  unfold Grammar.listEnds listEnds
  rw [bind_apply, bind_apply, Grammar.here_apply, here_apply]
  simp only [hs.stands.ends_eq]
  cases s.cursor.atEnd with
  | true => exact matched_ok hs
  | false =>
    cases nested with
    | false => exact matched_ok hs
    | true => exact (agrees_sees _).matched hs

theorem atStatementEnd_apply {s : State} (h : s.cursor.Sited) :
    atStatementEnd s = .ok (Grammar.atStatementEnd s.cursor)
      { s with cursor := s.cursor.skip Recognizer.trivia } := by
  have hskip : skipTrivia s = .ok (Recognizer.trivia s.cursor.rest).isSome
      { s with cursor := s.cursor.skip Recognizer.trivia } := by
    unfold skipTrivia passes Cursor.skip Cursor.pass?
    rw [bind_apply, take?_apply h]
    cases Recognizer.trivia s.cursor.rest <;> rfl
  have hbehind : (s.cursor.skip Recognizer.trivia).Sited := h.before ((Cursor.Before.refl _).skip _)
  unfold atStatementEnd Grammar.atStatementEnd
  rw [bind_apply, hskip]
  simp only
  rw [bind_apply, here_apply]
  simp only [hbehind.ends_eq]
  cases (s.cursor.skip Recognizer.trivia).atEnd with
  | true => rfl
  | false => exact sees_apply (s := { s with cursor := s.cursor.skip Recognizer.trivia }) hbehind _

theorem atEndOfDeclaration_apply {s : State} (h : s.cursor.Sited) :
    atEndOfDeclaration s = .ok s.atEndOfDeclaration s := by
  unfold atEndOfDeclaration State.atEndOfDeclaration
  rw [bind_apply, get_apply]
  simp only
  cases s.atBlockEnd with
  | true => rfl
  | false =>
    have hprobe := probe_apply atStatementEnd s
    rw [atStatementEnd_apply h] at hprobe
    exact hprobe

theorem giveUp_apply {before s : State} (h : before.cursor.Before s.cursor) :
    giveUp before s = .ok () (s.giveUp before) := by
  unfold giveUp
  rw [bind_apply, here_apply]
  simp only [h.rewind?]
  rfl

theorem agrees_during {α : Type} {p : Production α} {q : ByteProduction α} (committed : Bool)
    (h : Agrees (Ahead c) p q) :
    Agrees (Ahead c) (Grammar.during committed p) (during committed q) := by
  refine agrees_of_runs fun s hs => ?_
  unfold Grammar.during during
  rcases h.runs hs with ⟨a, t, hp, hq, ht⟩ | ⟨e, t, hp, hq, ht⟩
  · rw [hp, hq]
    exact matched_ok ht
  · rw [hp, hq]
    exact matched_error ht

/-- What follows at the place where an attempt starts may go back to there. -/
theorem agrees_during_here_bind {α : Type} {f : Cursor → Attempt α} {g : Cursor → ByteAttempt α}
    {committed : Bool}
    (h : ∀ d, c.Before d → Agrees (Ahead d) (f d) (g d)) :
    Agrees (Ahead c) (Grammar.during committed Grammar.here >>= f)
      (during committed here >>= g) := by
  refine agrees_of_runs fun s hs => ?_
  exact matched_earlier hs.sited hs.ahead ((h s.cursor hs.ahead).matched hs.here)

section
variable {block : Production (List Node)} {block' : ByteProduction (List Node)}
  (hblock : ∀ c, Agrees (Ahead c) block block')
include hblock

theorem agrees_directive : Agrees (Ahead c) (Grammar.directive block) (directive block') := by
  refine agrees_place_bind fun d _ => simulates_after (agrees_expect _) fun _ => ?_
  refine simulates_after agrees_identifier fun name => ?_
  simp only
  generalize String.ofList name = word
  split
  · exact Directive.agrees_definition hblock d.line
  · exact Directive.agrees_inclusion d.line
  · exact Directive.agrees_branch hblock d.line
  · exact simulates_throw rfl
  · exact Directive.agrees_loop hblock d.line
  · exact simulates_after (agrees_expression _) fun _ => simulates_pure rfl
  · exact simulates_after (agrees_expression _) fun _ => simulates_pure rfl
  · next hmixin hinclude hif helse hwhile hdebug hwarn =>
    rw [if_neg hmixin, if_neg hinclude, if_neg hif, if_neg helse, if_neg hwhile, if_neg hdebug,
      if_neg hwarn]
    exact Directive.agrees_atRule hblock name d.line

theorem agrees_declarationValue (name : Text) (line : Nat) (spaced : Bool) :
    Agrees (Ahead c) (Grammar.declarationValue block name line spaced)
      (declarationValue block' name line spaced) := by
  have hrest : ∀ value : Option Expression, Agrees (Ahead c) (do
        let important ← Grammar.flag .important
        let behind ← Grammar.here
        let _ ← Grammar.skipTrivia
        if ← Grammar.sees (char '{') then
          unless spaced do
            Grammar.fail "\";\""
          return (⟨.property name value important, line, ← block⟩ : Node)
        else
          Grammar.moveTo behind
          return .leaf (.property name value important) line) (do
        let important ← flag .important
        let behind ← here
        let _ ← skipTrivia
        if ← sees (char '{') then
          unless spaced do
            fail "\";\""
          return ⟨.property name value important, line, ← block'⟩
        else
          rewind behind
          return .leaf (.property name value important) line) := by
    intro value
    refine simulates_after (agrees_flag _) fun important => agrees_here_bind fun d _ => ?_
    refine simulates_after agrees_skipTrivia fun _ => simulates_after (agrees_sees _) fun _ => ?_
    refine simulates_ite Iff.rfl (agrees_check _ ?_) ?_
    · exact simulates_after (hblock d) fun _ => simulates_pure rfl
    · exact simulates_after agrees_rewind fun _ => simulates_pure rfl
  refine simulates_after (agrees_andM (simulates_pure rfl) (agrees_sees _)) fun _ => ?_
  exact simulates_ite Iff.rfl (hrest none) (simulates_after (agrees_some_expression _) hrest)

theorem agrees_declaration : Agrees (Ahead c) (Grammar.declaration block) (declaration block') := by
  refine agrees_during_here_bind fun d _ => ?_
  refine simulates_after (agrees_during _ (agrees_passes _)) fun marked => ?_
  refine simulates_after (agrees_during _ ?_) fun name => ?_
  · refine simulates_after agrees_propertyName fun _ => ?_
    refine agrees_since_bind (f := fun name => do
      let _ ← Grammar.skipTrivia
      Grammar.expect ':'
      return name) fun name => ?_
    refine simulates_after agrees_skipTrivia fun _ => ?_
    exact simulates_after (agrees_expect _) fun _ => simulates_pure rfl
  · refine simulates_after (agrees_during _ agrees_skipTrivia) fun spaced => ?_
    refine simulates_after (agrees_during _ (agrees_sees _)) fun named => ?_
    exact agrees_during _ (agrees_declarationValue hblock name d.line spaced)

theorem agrees_ruleset : Agrees (Ahead c) (Grammar.ruleset block) (ruleset block') := by
  refine agrees_place_bind fun d _ => simulates_after Selector.agrees_groupText fun text => ?_
  refine simulates_after agrees_skipTrivia fun _ => ?_
  exact simulates_after (hblock c) fun _ => simulates_pure rfl

/-- **An attempt never ends before the place where it began**, so that place can be given back. -/
theorem agrees_declarationOrRuleset :
    Agrees (Ahead c) (Grammar.declarationOrRuleset block) (declarationOrRuleset block') := by
  refine agrees_of_runs fun s hs => matched_earlier hs.sited hs.ahead ?_
  have hback : ∀ t : State, Ahead s.cursor (t.giveUp s) := fun t => ⟨hs.stands, .refl _⟩
  unfold Grammar.declarationOrRuleset declarationOrRuleset
  rw [bind_apply, get_apply]
  simp only
  rw [bind_apply, attempt_apply]
  rcases (agrees_declaration hblock).runs hs.here with
    ⟨node, t, hp, hq, ht⟩ | ⟨rejected, t, hp, hq, ht⟩
  · simp only [hp, hq]
    rw [bind_apply, atEndOfDeclaration_apply ht.stands]
    simp only
    split
    · exact matched_ok ht
    · rw [bind_apply, giveUp_apply ht.ahead]
      exact (agrees_ruleset hblock).matched (hback t)
  · simp only [hp, hq]
    rw [bind_apply, giveUp_apply ht.ahead]
    simp only
    unfold orFail
    rcases (agrees_ruleset hblock).runs (hback t) with ⟨node, u, hp, hq, hu⟩ | ⟨e, u, hp, hq, hu⟩
    · simp only [hp, hq]
      exact matched_ok hu
    · simp only [hp, hq]
      cases rejected.committed with
      | true => exact matched_error hu
      | false => exact matched_error hu

theorem agrees_statement : Agrees (Ahead c) (Grammar.statement block) (statement block') := by
  refine simulates_after (agrees_sees _) fun _ => simulates_ite Iff.rfl agrees_assignment ?_
  refine simulates_after (agrees_sees _) fun _ => ?_
  exact simulates_ite Iff.rfl (agrees_directive hblock) (agrees_declarationOrRuleset hblock)

theorem agrees_listStep (nested : Bool) :
    Agrees (Ahead c) (Grammar.listStep block nested) (listStep block' nested) := by
  refine simulates_after (agrees_passes _) fun _ => simulates_after (agrees_listEnds _) fun _ => ?_
  refine simulates_ite Iff.rfl (simulates_pure rfl) (simulates_after (agrees_passes _) fun _ => ?_)
  refine simulates_ite Iff.rfl (simulates_pure rfl) (simulates_after agrees_comment fun found => ?_)
  cases found with
  | some node => exact simulates_pure rfl
  | none =>
    refine simulates_after (agrees_statement hblock) fun node => ?_
    refine simulates_get_bind fun s t hs => simulates_ite (by rw [hs.same]) (simulates_pure rfl) ?_
    refine simulates_after agrees_skipTrivia fun _ => ?_
    refine simulates_after (agrees_orM (agrees_passes _) (agrees_listEnds _)) fun _ => ?_
    exact agrees_check _ (simulates_pure rfl)

theorem agrees_statements (nested : Bool) :
    Agrees (Ahead c) (Grammar.statements block nested) (statements block' nested) :=
  agrees_unfold (fun _ => agrees_listStep hblock nested) ()

theorem agrees_blockBy : Agrees (Ahead c) (Grammar.blockBy block) (blockBy block') := by
  refine simulates_after (agrees_expect _) fun _ =>
    simulates_after (agrees_statements hblock true) fun _ => ?_
  refine simulates_after (agrees_expect _) fun _ => ?_
  refine simulates_after (agrees_of_runs fun s hs => ?_) fun _ => simulates_pure rfl
  exact matched_ok ⟨hs.sited, hs.ahead⟩

end

theorem agrees_block : Agrees (Ahead c) Grammar.block block :=
  agrees_recurse (fun _ => agrees_fail _) fun _ _ hblock _ => agrees_blockBy hblock

theorem agrees_document : Agrees (Ahead c) Grammar.document document := by
  refine agrees_place_bind fun d _ => ?_
  exact simulates_after (agrees_statements (fun _ => agrees_block) false) fun _ =>
    simulates_pure rfl

end
end ByteGrammar

/-- What comes of parsing a text by its bytes, if all that it asks for exists. -/
def parseByBytes? (source : Text) (options : Options := {}) : Option Parsed :=
  match ByteGrammar.document (.start source options) with
  | .ok node s => some ⟨.ok node, s.warnings, s.log⟩
  | .error (.error e) s => some ⟨.error e, s.warnings, s.log⟩
  | .error .panic _ => none

/-- **Parsing by bytes finds all that it asks for**: every slice of the text, every place at a byte,
every earlier place that it goes back to, every difference of two numbers, and every share of a
color as a byte.  It comes to what parsing by characters comes to. -/
theorem parseByBytes?_eq (source : Text) (options : Options) :
    parseByBytes? source options = some (parse source options) := by
  have hstart : ByteGrammar.Ahead (Cursor.start source options.line 0) (.start source options) :=
    ⟨Cursor.sited_start _ _ _, .refl _⟩
  unfold parseByBytes? parse
  rcases ByteGrammar.agrees_document.runs hstart with ⟨node, s, hp, hq, -⟩ | ⟨e, s, hp, hq, -⟩
  · rw [hp, hq]
  · rw [hp, hq]

/-! ### All runs -/

/-- **Slices, places, ways back and differences exist, whatever the text.**  Parsing by bytes comes
to what parsing by characters comes to.  A lexer that starts anywhere in the text goes by bytes
through any calls as it goes by characters, whether they fail or not; whatever it is called for
next, it answers the same or fails with the same error; and the places that it keeps, its own, the
end of the last token and the start of the token in view, are between two characters of the text,
none of them ahead of its own.

This covers what `Fault.panic` stands for, and no sums: lines, columns and depths are natural
numbers.  Lines and columns in counters of 64 bits agree with them where `Location.step` says so. -/
theorem no_run_panics (source : Text) (options : Options) :
    parseByBytes? source options = some (parse source options) ∧
    ∀ (line column n : Nat) (calls : List Lexer.Call),
      let start := Lexer.ofCursor ((Cursor.start source line column).advance n) options
      let l := start.after calls
      ByteLexer.after? calls start = some l ∧
      (∀ call, ByteLexer.reply call l = unharmed (call.reply l)) ∧
      source.splitBytes? l.cursor.offset = some (l.cursor.consumed, l.cursor.rest) ∧
      source.splitBytes? l.previousEnd.offset = some (l.previousEnd.consumed, l.previousEnd.rest) ∧
      ∀ ahead ∈ l.lookahead,
        source.splitBytes? ahead.start.offset = some (ahead.start.consumed, ahead.start.rest) ∧
        ahead.start.offset ≤ l.cursor.offset := by
  refine ⟨parseByBytes?_eq source options, fun line column n calls => ?_⟩
  have hsited : ((Cursor.start source line column).advance n).Sited :=
    (Cursor.sited_start source line column).before (Cursor.before_advance n _)
  have hsource : ((Cursor.start source line column).advance n).source = source :=
    Cursor.source_advance n _
  have hplace : ∀ {d : Cursor}, ((Cursor.start source line column).advance n).Before d →
      source.splitBytes? d.offset = some (d.consumed, d.rest) := by
    intro d hd
    have hsplit := (hsited.before hd).splitBytes?_source
    rwa [hd.source_eq, hsource] at hsplit
  obtain ⟨hafter, hrange⟩ := ByteLexer.after?_eq (.ofCursor hsited (.refl _) options) calls
  refine ⟨hafter, fun call => ((ByteLexer.agrees_reply call).eq_unharmed hrange).1,
    hplace hrange.cursor, hplace hrange.previousEnd, ?_⟩
  intro ahead hview
  obtain ⟨hstart, hbehind⟩ := hrange.lookahead ahead hview
  exact ⟨hplace hstart, hbehind.offset_le⟩

end Stylesheet
