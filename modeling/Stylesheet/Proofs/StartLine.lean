import Stylesheet.Proofs.Transplant

/-!
# The line a text starts on

Nothing that is read depends on the number of a line.  The places of a text and of the same text
that starts some lines further down look alike (`Replica.lowered`), down to what stands before them,
so the two documents are the same with every line in it further down, and so are the errors, the
warnings and the log (`parse_lower`).
-/
namespace Stylesheet

/-! ### What comes of a text, further down -/

/-- The same problem a number of lines further down. -/
def SyntaxError.lower (lines : Nat) (e : SyntaxError) : SyntaxError :=
  { e with line := e.line + lines }

/-- The same event a number of lines further down. -/
def Event.lower (lines : Nat) : Event → Event
  | .backtrack line => .backtrack (line + lines)
  | .deprecated warning => .deprecated (warning.lower lines)
  | .bound name parameters => .bound name parameters

/-- What comes of the same text a number of lines further down: the columns and the offsets stay. -/
def Parsed.lower (lines : Nat) (p : Parsed) : Parsed where
  result := match p.result with
    | .ok root => .ok (root.transport (Location.below lines 0) lines)
    | .error e => .error (e.lower lines)
  warnings := p.warnings.map (Deprecation.lower lines)
  log := p.log.map (Event.lower lines)

theorem Grammar.State.log_lower {lines : Nat} {s t : State}
    (hbacktracks : t.backtracks = s.backtracks.map (· + lines))
    (hwarnings : t.warnings = s.warnings.map (Deprecation.lower lines)) :
    t.log = s.log.map (Event.lower lines) := by
  simp only [log, hbacktracks, hwarnings, List.map_append, List.map_map]
  rfl

/-! ### Places further down -/

/-- The same place in a text that starts a number of lines further down. -/
structure Cursor.Lowered (lines : Nat) (c d : Cursor) : Prop where
  past : d.past = c.past
  rest : d.rest = c.rest
  location : d.location = c.location.below lines 0

namespace Cursor.Lowered

variable {lines : Nat} {c d c' d' : Cursor}

theorem line (h : Lowered lines c d) : d.line = c.line + lines := by
  rw [Cursor.line, h.location]
  rfl

theorem offset (h : Lowered lines c d) : d.offset = c.offset := by
  rw [Cursor.offset, h.location]
  rfl

theorem advance (h : Lowered lines c d) (n : Nat) : Lowered lines (c.advance n) (d.advance n) where
  past := by
    show (d.rest.take n).reverse ++ d.past = (c.rest.take n).reverse ++ c.past
    rw [h.past, h.rest]
  rest := by rw [rest_advance, rest_advance, h.rest]
  location := by rw [location_advance, location_advance, h.rest, h.location, Location.after_below]

theorem textSince (h : Lowered lines c d) (h' : Lowered lines c' d') :
    d'.textSince d = c'.textSince c := by
  rw [Cursor.textSince, Cursor.textSince, h'.past, h'.offset, h.offset]

/-- An error shows the text on both sides of its place, which is the same. -/
theorem unexpected (h : Lowered lines c d) (expected : String) :
    d.unexpected expected = (c.unexpected expected).lower lines := by
  simp only [Cursor.unexpected, Context.before, Context.found, h.past, h.rest, h.line]
  rfl

end Cursor.Lowered

/-- The places of a text and of the same text a number of lines further down. -/
def Replica.lowered (lines : Nat) : Replica where
  place := Cursor.Lowered lines
  move := Location.below lines 0
  lines := lines
  bytes := 0
  error e e' := e' = e.lower lines
  options o := { o with line := o.line + lines }
  stale := none
  earlier := []
  retried ls ms := ms = ls.map (· + lines)
  line_move _ := rfl
  offset_move _ := rfl
  location h := h.location
  rest h := h.rest
  advance n h := h.advance n
  textSince h h' := h.textSince h'
  unexpected expected h := h.unexpected expected
  stray _ := rfl
  stale_ne _ := nofun
  retried_concat line h := by rw [h, List.map_append, List.map_singleton]

namespace Grammar

theorem sameState_lowered (source : Text) (options : Options) (lines : Nat) :
    (Replica.lowered lines).SameState (.start source options)
      (.start source { options with line := options.line + lines }) where
  cursor := ⟨rfl, rfl, rfl⟩
  options := rfl
  blockEnd := .inl rfl
  warnings := rfl
  backtracks := rfl
  rollback := rfl

end Grammar

open Grammar

/-- **The line a text starts on only moves lines.**  A text that starts a number of lines further
down gives the same document or the same error, and the same warnings and log, with every line in
them as many lines further down.

Lines are natural numbers.  With counters of 64 bits it is the same as long as `options.line`,
`lines` and the newlines of the source are together below 2 ^ 64. -/
theorem parse_lower (source : Text) (options : Options) (lines : Nat) :
    parse source { options with line := options.line + lines } =
      (parse source options).lower lines := by
  have hrun := Replica.follows_statements Replica.follows_block false _ _
    (sameState_lowered source options lines)
  unfold parse
  rw [document_apply, document_apply, map_apply, map_apply]
  generalize statements block false (.start source options) = r,
    statements block false (.start source { options with line := options.line + lines }) = r'
    at hrun ⊢
  cases hrun with
  | @ok ns ms s t hnodes hstates =>
    have hroot : (⟨.root, options.line + lines, ms⟩ : Node) =
        (⟨.root, options.line, ns⟩ : Node).transport (Location.below lines 0) lines := by
      rw [Node.transport_eq, show ms = _ from hnodes]
      rfl
    simp only [Parsed.lower, State.log_lower hstates.backtracks hstates.warnings,
      show t.warnings = _ from hstates.warnings]
    exact congrArg (Parsed.mk · _ _) (congrArg Except.ok hroot)
  | @error e e' s t herror hstates =>
    simp only [Parsed.lower, State.log_lower hstates.backtracks hstates.warnings,
      show t.warnings = _ from hstates.warnings, show e' = _ from herror]
    rfl

end Stylesheet
