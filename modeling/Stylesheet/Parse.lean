import Stylesheet.Grammar.Statement

/-!
# Parsing

Parsing a text gives its document or the first error, the warnings for what was kept of it, and a
log. The log holds the statements that were read twice as they came up, and then the warnings; both
are there whether the text parses or not.
-/

namespace Stylesheet

/-- What comes of parsing a text. -/
structure Parsed where
  result : Except SyntaxError Node
  warnings : List Deprecation
  log : List Event

namespace Grammar.State

/-- The state at the start of a text. -/
def start (source : Text) (options : Options) (rollback : Rollback := .position) : State :=
  { cursor := .start source options.line 0, options, rollback }

/-- The log of what led to a state. -/
def log (s : State) : List Event :=
  s.backtracks.map .backtrack ++ s.warnings.map .deprecated

end Grammar.State

/-- Parses a text. -/
def parse (source : Text) (options : Options := {}) : Parsed :=
  match Grammar.document (.start source options) with
  | .ok node s => ⟨.ok node, s.warnings, s.log⟩
  | .error e s => ⟨.error e, s.warnings, s.log⟩

end Stylesheet
