import Stylesheet.Proofs.Interpolation
import Stylesheet.Proofs.Relocation

/-!
# Runs that are alike

Two programs that run alike from states that are alike end in answers and states that are alike, or
both in an error (`Simulates`).  It is enough to look at single steps: the ways to put programs
together pass it on.

A `Replica` says which places of a second text look like places of a first one: what comes behind
them is the same, and each location of the one is a known location of the other.  A lexer cannot
tell the two apart.  From places that look alike it reads the same tokens, only elsewhere
(`Replica.simulates_collectUntil`, `Replica.simulates_interpolation`).
-/
namespace Stylesheet

section
variable {ε ε' σ α α' β β' : Type} {alike : σ → σ → Prop} {answer : α → α' → Prop}
  {error : ε → ε' → Prop}

/-- The ends of two runs that are alike. -/
inductive Matched (alike : σ → σ → Prop) (answer : α → α' → Prop) (error : ε → ε' → Prop) :
    EStateM.Result ε σ α → EStateM.Result ε' σ α' → Prop
  | ok {a : α} {b : α'} {s t : σ} (answers : answer a b) (states : alike s t) :
    Matched alike answer error (.ok a s) (.ok b t)
  | error {e : ε} {e' : ε'} {s t : σ} (errors : error e e') (states : alike s t) :
    Matched alike answer error (.error e s) (.error e' t)

/-- From states that are alike the second program runs as the first one does. -/
def Simulates (alike : σ → σ → Prop) (answer : α → α' → Prop) (error : ε → ε' → Prop)
    (p : EStateM ε σ α) (q : EStateM ε' σ α') : Prop :=
  ∀ s t, alike s t → Matched alike answer error (p s) (q t)

theorem simulates_pure {a : α} {b : α'} (h : answer a b) :
    Simulates alike answer error (pure a) (pure b) :=
  fun _ _ hs => .ok h hs

theorem simulates_throw {e : ε} {e' : ε'} (h : error e e') :
    Simulates alike answer error (throw e) (throw e') :=
  fun _ _ hs => .error h hs

theorem simulates_get_bind {answer : β → β' → Prop} {f : σ → EStateM ε σ β}
    {g : σ → EStateM ε' σ β'} (h : ∀ s t, alike s t → Simulates alike answer error (f s) (g t)) :
    Simulates alike answer error (get >>= f) (get >>= g) :=
  fun s t hs => h s t hs s t hs

theorem simulates_modify {f g : σ → σ} (h : ∀ s t, alike s t → alike (f s) (g t)) :
    Simulates alike Eq error (modify f : EStateM ε σ PUnit) (modify g : EStateM ε' σ PUnit) :=
  fun s t hs => .ok rfl (h s t hs)

/-- What follows runs alike from answers that are alike, so the two runs together do. -/
theorem simulates_bind {answer' : β → β' → Prop} {p : EStateM ε σ α} {q : EStateM ε' σ α'}
    {f : α → EStateM ε σ β} {g : α' → EStateM ε' σ β'} (hp : Simulates alike answer error p q)
    (hf : ∀ a b, answer a b → Simulates alike answer' error (f a) (g b)) :
    Simulates alike answer' error (p >>= f) (q >>= g) := by
  intro s t hs
  have hfirst := hp s t hs
  rw [bind_apply, bind_apply]
  generalize p s = r, q t = r' at hfirst ⊢
  cases hfirst with
  | ok answers states => exact hf _ _ answers _ _ states
  | error errors states => exact .error errors states

/-- What follows a program whose answers are the same. -/
theorem simulates_after {answer : β → β' → Prop} {p : EStateM ε σ α} {q : EStateM ε' σ α}
    {f : α → EStateM ε σ β} {g : α → EStateM ε' σ β'} (hp : Simulates alike Eq error p q)
    (hf : ∀ a, Simulates alike answer error (f a) (g a)) :
    Simulates alike answer error (p >>= f) (q >>= g) :=
  simulates_bind hp fun a _ h => h ▸ hf a

theorem simulates_ite {P Q : Prop} [Decidable P] [Decidable Q] (hiff : P ↔ Q)
    {p p' : EStateM ε σ α} {q q' : EStateM ε' σ α'} (h : Simulates alike answer error p q)
    (h' : Simulates alike answer error p' q') :
    Simulates alike answer error (if P then p else p') (if Q then q else q') := by
  by_cases hP : P
  · rw [if_pos hP, if_pos (hiff.mp hP)]
    exact h
  · rw [if_neg hP, if_neg (mt hiff.mpr hP)]
    exact h'

variable {size : σ → Nat} (hsize : ∀ s t, alike s t → size t = size s)
include hsize

/-- A loop whose rounds run alike. -/
theorem simulates_unfold {f : α → α'} {step : β → EStateM ε σ (List α × Option β)}
    {step' : β → EStateM ε' σ (List α' × Option β)}
    (h : ∀ b, Simulates alike (fun r r' => r' = (r.1.map f, r.2)) error (step b) (step' b))
    (b : β) :
    Simulates alike (fun as bs => bs = as.map f) error (unfold size step b)
      (unfold size step' b) := by
  intro s t hs
  -- On what is left of the first run.  The second one goes on for as long, for its size is the
  -- same.
  induction hn : size s using Nat.strongRecOn generalizing b s t with
  | ind n ih =>
    have hround := h b s t hs
    rw [unfold_apply, unfold_apply, hsize s t hs]
    generalize step b s = r, step' b t = r' at hround ⊢
    cases hround with
    | error errors states => exact .error errors states
    | @ok now _ s' t' answers states =>
      subst answers
      obtain ⟨found, next⟩ := now
      cases next with
      | none => exact .ok rfl states
      | some b' =>
        simp only [hsize s' t' states]
        by_cases hlt : size s' < size s
        · have hmore := ih (size s') (hn ▸ hlt) b' s' t' states rfl
          simp only [if_pos hlt]
          generalize unfold size step b' s' = r, unfold size step' b' t' = r' at hmore ⊢
          cases hmore with
          | ok answers states => exact .ok (by rw [answers, List.map_append]) states
          | error errors states => exact .error errors states
        · simp only [if_neg hlt]
          exact .ok rfl states

/-- Rules that use themselves, if they run alike whenever what they use does. -/
theorem simulates_recurse {stuck : EStateM ε σ α} {stuck' : EStateM ε' σ α'}
    {rule : EStateM ε σ α → EStateM ε σ α} {rule' : EStateM ε' σ α' → EStateM ε' σ α'}
    (hstuck : Simulates alike answer error stuck stuck')
    (hrule : ∀ p q, Simulates alike answer error p q →
      Simulates alike answer error (rule p) (rule' q)) :
    Simulates alike answer error (recurse size stuck rule) (recurse size stuck' rule') := by
  intro s t hs
  induction hn : size s using Nat.strongRecOn generalizing s t with
  | ind n ih =>
    rw [recurse_apply, recurse_apply]
    refine hrule _ _ (fun s' t' hs' => ?_) s t hs
    rw [hsize s t hs, hsize s' t' hs']
    by_cases hlt : size s' < size s
    · rw [if_pos hlt, if_pos hlt]
      exact ih (size s') (hn ▸ hlt) s' t' hs' rfl
    · rw [if_neg hlt, if_neg hlt]
      exact hstuck s' t' hs'

end

/-! ### Places that look alike -/

/-- The same error a number of lines further down, where another text may stand before it. -/
inductive SyntaxError.Echoes (lines : Nat) : SyntaxError → SyntaxError → Prop
  | unexpected (before before' : Text) (expected : String) (found : Text) (line : Nat) :
    Echoes lines ⟨.unexpected before expected found, line⟩
      ⟨.unexpected before' expected found, line + lines⟩
  | strayElse (line : Nat) : Echoes lines ⟨.strayElse, line⟩ ⟨.strayElse, line + lines⟩

/-- Which places of a second text look like places of a first one, and how the two differ. -/
structure Replica where
  /-- The second place looks like the first. -/
  place : Cursor → Cursor → Prop
  /-- Where a location of the first text is in the second. -/
  move : Location → Location
  /-- How many lines further down that is. -/
  lines : Nat
  /-- How many bytes further on that is. -/
  bytes : Nat
  /-- What an error in the first text may be in the second. -/
  error : SyntaxError → SyntaxError → Prop
  /-- What the options of the first run are in the second. -/
  options : Options → Options := id
  /-- The end of the block that the second run closed last before it came to these places. -/
  stale : Option Nat
  /-- The warnings that the second run gave before. -/
  earlier : List Deprecation
  /-- What the lines of the statements that were read again may be in the second run. -/
  retried : List Nat → List Nat → Prop
  quiet_options : ∀ o, (options o).quiet = o.quiet := by exact fun _ => rfl
  filename_options : ∀ o, (options o).filename = o.filename := by exact fun _ => rfl
  line_move : ∀ l, (move l).line = l.line + lines
  offset_move : ∀ l, (move l).offset = l.offset + bytes
  location : ∀ {c d}, place c d → d.location = move c.location
  rest : ∀ {c d}, place c d → d.rest = c.rest
  advance : ∀ {c d} (n : Nat), place c d → place (c.advance n) (d.advance n)
  textSince : ∀ {c d c' d'}, place c d → place c' d' → d'.textSince d = c'.textSince c
  unexpected : ∀ {c d} (expected : String), place c d →
    error (c.unexpected expected) (d.unexpected expected)
  stray : ∀ line, error ⟨.strayElse, line⟩ ⟨.strayElse, line + lines⟩
  stale_ne : ∀ {c d}, place c d → stale ≠ some d.offset
  retried_concat : ∀ {ls ms} (line : Nat), retried ls ms →
    retried (ls ++ [line]) (ms ++ [line + lines])

namespace Replica

variable {R : Replica} {c d c' d' : Cursor}

theorem line (h : R.place c d) : d.line = c.line + R.lines := by
  rw [Cursor.line, R.location h, R.line_move, Cursor.line]

theorem offset (h : R.place c d) : d.offset = c.offset + R.bytes := by
  rw [Cursor.offset, R.location h, R.offset_move, Cursor.offset]

/-- Which of two places comes first is the same in both texts. -/
theorem offset_le_iff (h : R.place c d) (h' : R.place c' d') :
    c.offset ≤ c'.offset ↔ d.offset ≤ d'.offset := by
  have hc := offset h
  have hc' := offset h'
  omega

theorem left (h : R.place c d) : d.left = c.left := by
  rw [c.left_eq, d.left_eq, R.rest h]

theorem atEnd (h : R.place c d) : d.atEnd = c.atEnd := by
  rw [Cursor.atEnd, R.rest h, Cursor.atEnd]

theorem sees (h : R.place c d) (form : Recognizer) : d.sees form = c.sees form := by
  rw [Cursor.sees, R.rest h, Cursor.sees]

theorem skip (h : R.place c d) (form : Recognizer) : R.place (c.skip form) (d.skip form) := by
  unfold Cursor.skip Cursor.pass?
  rw [R.rest h]
  cases form c.rest with
  | none => exact h
  | some n => exact R.advance n h

/-- Where no block was closed before, none ends at a place or behind it. -/
theorem lt_offset_of_mem_none (c : Cursor) : ∀ n ∈ (none : Option Nat), n < c.offset :=
  nofun

/-- The places of two texts from two places on that have the same text before them. -/
def onward {o o' : Cursor} (hrest : o'.rest = o.rest) (move : Location → Location)
    (lines bytes : Nat) (line_move : ∀ l, (move l).line = l.line + lines)
    (offset_move : ∀ l, (move l).offset = l.offset + bytes)
    (hlocation : ∀ n, (o'.advance n).location = move (o.advance n).location) (stale : Option Nat)
    (hstale : ∀ n ∈ stale, n < o'.offset) (earlier : List Deprecation) : Replica where
  place c d := ∃ n, c = o.advance n ∧ d = o'.advance n
  move := move
  lines := lines
  bytes := bytes
  error := SyntaxError.Echoes lines
  stale := stale
  earlier := earlier
  retried := fun _ _ => True
  line_move := line_move
  offset_move := offset_move
  location := by
    rintro _ _ ⟨n, rfl, rfl⟩
    exact hlocation n
  rest := by
    rintro _ _ ⟨n, rfl, rfl⟩
    rw [Cursor.rest_advance, Cursor.rest_advance, hrest]
  advance := by
    rintro _ _ m ⟨n, rfl, rfl⟩
    exact ⟨n + m, Cursor.advance_advance n m o, Cursor.advance_advance n m o'⟩
  textSince := by
    rintro _ _ _ _ ⟨n, rfl, rfl⟩ ⟨m, rfl, rfl⟩
    rcases Nat.le_total n m with hle | hle
    · obtain ⟨k, rfl⟩ := Nat.exists_eq_add_of_le hle
      rw [← Cursor.advance_advance, ← Cursor.advance_advance, Cursor.textSince_advance,
        Cursor.textSince_advance, Cursor.rest_advance, Cursor.rest_advance, hrest]
    · obtain ⟨k, rfl⟩ := Nat.exists_eq_add_of_le hle
      rw [← Cursor.advance_advance, ← Cursor.advance_advance,
        (Cursor.before_advance k _).textSince_eq_nil, (Cursor.before_advance k _).textSince_eq_nil]
  unexpected := by
    rintro _ _ expected ⟨n, rfl, rfl⟩
    have hline : (o'.advance n).line = (o.advance n).line + lines := by
      rw [Cursor.line, hlocation, line_move, Cursor.line]
    have hfound : Context.found (o'.advance n) = Context.found (o.advance n) := by
      rw [Context.found, Cursor.rest_advance, hrest]
      rfl
    rw [Cursor.unexpected, Cursor.unexpected, hline, hfound]
    exact .unexpected _ _ _ _ _
  stray := .strayElse
  stale_ne := by
    rintro _ _ ⟨n, rfl, rfl⟩ hsome
    exact Nat.not_lt_of_le (Cursor.before_advance n o').offset_le (hstale _ hsome)
  retried_concat _ _ := trivial

/-! ### Lexers that look alike -/

/-- A token in view, and the same token elsewhere. -/
structure SameAhead (R : Replica) (a b : Lookahead) : Prop where
  token : b.token = a.token.relocate R.move
  start : R.place a.start b.start
  opens : b.opens = a.opens
  warnings : b.warnings = a.warnings.map (Deprecation.lower R.lines)

/-- A lexer that has done the same as another one elsewhere. -/
structure SameLexer (R : Replica) (l m : Lexer) : Prop where
  cursor : R.place l.cursor m.cursor
  options : m.options = R.options l.options
  lookahead : Option.Rel R.SameAhead l.lookahead m.lookahead
  previous : m.previous = l.previous.map (Token.relocate R.move)
  previousEnd : R.place l.previousEnd m.previousEnd
  interpolations : m.interpolations = l.interpolations
  openSegment : m.openSegment = l.openSegment
  resume : m.resume = l.resume
  pushes : m.pushes = l.pushes
  pops : m.pops = l.pops
  expected : m.expected = l.expected
  warnings : m.warnings = l.warnings.map (Deprecation.lower R.lines)

/-- New lexers at places that look alike are alike. -/
theorem sameLexer_ofCursor (h : R.place c d) {options options' : Options}
    (hoptions : options' = R.options options) :
    R.SameLexer (.ofCursor c options) (.ofCursor d options') where
  cursor := h
  options := hoptions
  lookahead := .none
  previous := rfl
  previousEnd := h
  interpolations := rfl
  openSegment := rfl
  resume := rfl
  pushes := rfl
  pops := rfl
  expected := rfl
  warnings := rfl

/-- The tokens of the first text, elsewhere. -/
def SameTokens (R : Replica) (ts us : List Token) : Prop :=
  us = ts.map (Token.relocate R.move)

namespace SameLexer

variable {l m : Lexer} (h : R.SameLexer l m)
include h

theorem depth : m.depth = l.depth := by
  rw [Lexer.depth, h.interpolations, Lexer.depth]

theorem pending : m.pending = l.pending := by
  have hclose : m.previous.any (·.isOp .closeInterpolation) =
      l.previous.any (·.isOp .closeInterpolation) := by
    rw [h.previous]
    cases l.previous with
    | none => rfl
    | some t => exact Token.isOp_relocate R.move t _
  rw [Lexer.pending, hclose, h.resume, Lexer.pending]

/-- The error of a lexer tells of its place and of what was expected there. -/
theorem failure : R.error l.failure m.failure := by
  unfold Lexer.failure
  rw [h.expected]
  exact R.unexpected _ h.cursor

theorem skipTrivia : R.SameLexer l.skipTrivia m.skipTrivia :=
  { h with cursor := skip h.cursor _ }

theorem advance (n : Nat) :
    R.SameLexer { l with cursor := l.cursor.advance n } { m with cursor := m.cursor.advance n } :=
  { h with cursor := R.advance n h.cursor }

theorem front : R.place l.front m.front := by
  have hview := h.lookahead
  unfold Lexer.front
  generalize l.lookahead = a, m.lookahead = b at hview ⊢
  cases hview with
  | none => exact h.cursor
  | some hahead => exact hahead.start

theorem size : m.size = l.size := by
  rw [Lexer.size, Lexer.size, left h.front, h.pending]

theorem unconsume : R.SameLexer l.unconsume m.unconsume :=
  { h with cursor := h.front, lookahead := .none }

theorem push (around : Option Quote) : R.SameLexer (l.push around) (m.push around) :=
  { h with
    interpolations := by rw [Lexer.push, Lexer.push, h.interpolations]
    pushes := by rw [Lexer.push, Lexer.push, h.pushes] }

theorem pop : R.SameLexer l.pop m.pop := by
  unfold Lexer.pop
  rw [h.interpolations, h.pops]
  split
  · exact h
  · exact { h with interpolations := rfl, pops := rfl, resume := rfl }

theorem warn (name : Text) (line : Nat) :
    R.SameLexer (l.warn name line) (m.warn name (line + R.lines)) := by
  unfold Lexer.warn
  rw [h.options, R.quiet_options, R.filename_options]
  split
  · exact h
  · refine { h with options := rfl, warnings := ?_ }
    rw [h.warnings, List.map_append]
    rfl

/-- What is remembered of a token follows from its kind, and its kind is the same. -/
theorem note (t : Token) : R.SameLexer (l.note t) (m.note (t.relocate R.move)) := by
  have hclear : R.SameLexer { l with resume := none } { m with resume := none } :=
    { h with resume := rfl }
  have hline : (t.relocate R.move).line = t.line + R.lines := by
    rw [Token.line, Token.location_relocate, R.line_move, Token.line]
  unfold Lexer.note
  rw [Token.kind_relocate, hline]
  cases t.kind with
  | op o =>
    cases o with
    | openInterpolation =>
      simp only [TokenKind.relocate]
      rw [h.openSegment]
      split
      · exact { hclear with openSegment := rfl }
      · exact { hclear.push none with openSegment := rfl }
    | closeInterpolation => exact hclear.pop
    | _ => exact hclear
  | var name legacy =>
    cases legacy with
    | true => exact hclear.warn name t.line
    | false => exact hclear
  | _ => exact hclear

/-- Consuming a token remembers it and adds its warnings to those before, in both lexers. -/
theorem consume {a b : Lookahead} (hahead : R.SameAhead a b) :
    R.SameLexer (l.consume a) (m.consume b) := by
  have hnote := h.note a.token
  have hwarnings : ∀ {ds ds' : List Deprecation}, ds' = ds.map (Deprecation.lower R.lines) →
      ds' ++ a.warnings.map (Deprecation.lower R.lines) =
        (ds ++ a.warnings).map (Deprecation.lower R.lines) :=
    fun hds => by rw [hds, List.map_append]
  unfold Lexer.consume
  rw [hahead.token, hahead.opens, hahead.warnings]
  cases a.opens with
  | none =>
    exact { hnote with
      lookahead := .none
      warnings := hwarnings hnote.warnings
      previous := rfl
      previousEnd := hnote.cursor }
  | some q =>
    have hpush := hnote.push (some q)
    exact { hpush with
      openSegment := rfl
      lookahead := .none
      warnings := hwarnings hpush.warnings
      previous := rfl
      previousEnd := hpush.cursor }

end SameLexer

theorem size_of_sameLexer (l m : Lexer) (h : R.SameLexer l m) : m.size = l.size :=
  h.size

/-! ### Reading tokens -/

open Lexer

/-- A lexeme has no places inside it. -/
theorem sameAhead_lexeme {inside : Bool} {t : Text} {x : Lexeme}
    (hfound : Lexeme.at? inside t = some x) (h : R.place c d) :
    R.SameAhead (x.ahead c) (x.ahead d) where
  token := by
    have hkind : x.kind.relocate R.move = x.kind :=
      TokenKind.relocate_eq R.move (Lexeme.found_of_at? hfound).kind_ne_special
    show Token.mk x.kind d.location = _
    rw [R.location h, Lexeme.ahead, Token.relocate, hkind]
  start := h
  opens := rfl
  warnings := rfl

/-- A segment has no places inside it either. -/
theorem sameAhead_segment {q : Quote} {t : Text} {x : Lexeme}
    (hfound : Lexeme.segment? q t = some x) (h : R.place c d) :
    R.SameAhead (x.ahead c) (x.ahead d) where
  token := by
    obtain ⟨⟨v, hkind⟩, -⟩ := Lexeme.segment?_eq_some hfound
    show Token.mk x.kind d.location = _
    rw [R.location h, Lexeme.ahead, Token.relocate, hkind]
    rfl
  start := h
  opens := rfl
  warnings := rfl

section
variable {p q : LexM (List Token)} (hinner : Simulates R.SameLexer R.SameTokens R.error p q)
include hinner

/-- Whether the parts of a special function go on is told by two places, and these are in the same
order. -/
theorem simulates_piece {stop stop' : Cursor} (hstop : R.place stop stop') :
    Simulates R.SameLexer (fun r r' => r' = (r.1.map (Piece.relocate R.move), r.2)) R.error
      (Rules.piece p stop) (Rules.piece q stop') := by
  intro l m h
  unfold Rules.piece
  by_cases hend : stop.offset ≤ l.cursor.offset
  · rw [if_pos hend, if_pos ((offset_le_iff hstop h.cursor).mp hend)]
    exact .ok rfl h
  · rw [if_neg hend, if_neg (mt (offset_le_iff hstop h.cursor).mpr hend), R.rest h.cursor]
    cases Rules.rawLength? l.cursor.rest with
    | some n => exact .ok rfl (h.advance n)
    | none =>
      have hrun := hinner _ _ (h.advance 2)
      simp only
      generalize p { l with cursor := l.cursor.advance 2 } = r,
        q { m with cursor := m.cursor.advance 2 } = r' at hrun ⊢
      cases hrun with
      | ok answers states =>
        refine .ok ?_ states
        rw [answers, List.map_singleton, Piece.relocate, Token.relocateAll_eq]
      | error errors states => exact .error errors states

theorem simulates_pieces {stop stop' : Cursor} (hstop : R.place stop stop') :
    Simulates R.SameLexer (fun ps ps' => ps' = ps.map (Piece.relocate R.move)) R.error
      (Rules.pieces p stop) (Rules.pieces q stop') := by
  rw [Rules.pieces_eq, Rules.pieces_eq]
  exact simulates_unfold size_of_sameLexer (fun _ => simulates_piece hinner hstop) ()

/-- A special function ends at the same parenthesis, and its parts are read by new lexers that are
alike. -/
theorem simulates_special (head : Nat) :
    Simulates R.SameLexer
      (fun r r' => r' = (r.1.relocate R.move, r.2.map (Deprecation.lower R.lines))) R.error
      (Rules.special p head) (Rules.special q head) := by
  intro l m h
  have hbody := R.advance head h.cursor
  rw [Rules.special_apply, Rules.special_apply, R.rest hbody]
  cases (l.cursor.advance head).rest.balancedLength? with
  | none => exact .error (R.unexpected _ hbody) (h.advance head)
  | some n =>
    have hstop := R.advance n hbody
    -- The bodies are read by lexers of their own, which start alike.
    have hrun := simulates_pieces hinner hstop _ _ (sameLexer_ofCursor hbody h.options)
    simp only
    generalize Rules.pieces p ((l.cursor.advance head).advance n)
      (.ofCursor (l.cursor.advance head) l.options) = r,
      Rules.pieces q ((m.cursor.advance head).advance n)
        (.ofCursor (m.cursor.advance head) m.options) = r' at hrun ⊢
    cases hrun with
    | error errors states => exact .error errors (h.advance head)
    | ok answers states =>
      refine .ok ?_ { h with cursor := hstop }
      rw [answers, states.warnings, R.rest h.cursor, TokenKind.relocate_special,
        ← Piece.join_relocate, List.map_cons, Piece.relocate]

/-- The rules for tokens see only what is left of the text. -/
theorem simulates_token :
    Simulates R.SameLexer R.SameAhead R.error (Rules.token p) (Rules.token q) := by
  intro l m h
  rw [Rules.token_apply, Rules.token_apply, h.depth, R.rest h.cursor]
  cases hfound : Lexeme.at? (0 < l.depth) l.cursor.rest with
  | some x => exact .ok (sameAhead_lexeme hfound h.cursor) (h.advance x.length)
  | none =>
    cases Recognizer.specialHead l.cursor.rest with
    | none => exact .error h.failure h
    | some n =>
      have hrun := simulates_special hinner n l m h
      simp only
      generalize Rules.special p n l = r, Rules.special q n m = r' at hrun ⊢
      cases hrun with
      | error errors states => exact .error errors states
      | @ok found _ _ _ answers states =>
        obtain ⟨kind, warnings⟩ := found
        subst answers
        refine .ok ⟨?_, h.cursor, rfl, rfl⟩ states
        rw [R.location h.cursor, Token.relocate]

/-- Both lexers go on with the same string, or with none and the same white space to pass. -/
theorem simulates_read :
    Simulates R.SameLexer (Option.Rel R.SameAhead) R.error (Rules.read p) (Rules.read q) := by
  intro l m h
  rw [Rules.read_apply, Rules.read_apply, h.pending, R.rest h.cursor, atEnd h.skipTrivia.cursor]
  cases l.pending with
  | some quote =>
    simp only
    cases hfound : Lexeme.segment? quote l.cursor.rest with
    | some x => exact .ok (.some (sameAhead_segment hfound h.cursor)) (h.advance x.length)
    | none => exact .error h.failure h
  | none =>
    simp only
    cases l.skipTrivia.cursor.atEnd with
    | true => exact .ok .none h.skipTrivia
    | false =>
      have hrun := simulates_token hinner _ _ h.skipTrivia
      simp only [Bool.false_eq_true, if_false]
      generalize Rules.token p l.skipTrivia = r, Rules.token q m.skipTrivia = r' at hrun ⊢
      cases hrun with
      | error errors states => exact .error errors states
      | ok answers states => exact .ok (.some answers) { states with expected := rfl }

/-! ### Calls -/

theorem simulates_peek :
    Simulates R.SameLexer (fun t u => u = t.map (Token.relocate R.move)) R.error
      (Rules.peek p) (Rules.peek q) := by
  intro l m h
  have hview := h.lookahead
  have hread := simulates_read hinner l m h
  rw [Rules.peek_apply, Rules.peek_apply]
  cases hl : l.lookahead with
  | some a =>
    rw [hl] at hview
    generalize hm : m.lookahead = b at hview
    cases hview with
    | some hahead => exact .ok (by rw [hahead.token]; rfl) h
  | none =>
    rw [hl] at hview
    generalize hm : m.lookahead = b at hview
    cases hview with
    | none =>
      simp only
      generalize Rules.read p l = r, Rules.read q m = r' at hread ⊢
      cases hread with
      | error errors states => exact .error errors states
      | ok answers states =>
        refine .ok ?_ { states with lookahead := answers }
        cases answers with
        | none => rfl
        | some hahead => rw [Option.map_some, hahead.token]; rfl

/-- A token in view is consumed, and without one the next token is read first, in both. -/
theorem simulates_next :
    Simulates R.SameLexer (fun t u => u = t.map (Token.relocate R.move)) R.error
      (Rules.next p) (Rules.next q) := by
  intro l m h
  have hpeek := simulates_peek hinner l m h
  rw [Rules.next_eq, Rules.next_eq]
  generalize Rules.peek p l = r, Rules.peek q m = r' at hpeek ⊢
  cases hpeek with
  | error errors states => exact .error errors states
  | @ok t u l' m' answers states =>
    have hview := states.lookahead
    simp only
    generalize hl : l'.lookahead = a, hm : m'.lookahead = b at hview
    cases hview with
    | none => exact .ok rfl states
    | some hahead => exact .ok (by rw [hahead.token]; rfl) (states.consume hahead)

omit hinner in
theorem simulates_isDone : Simulates R.SameLexer Eq R.error Lexer.isDone Lexer.isDone := by
  intro l m h
  have hview : m.lookahead.isSome = l.lookahead.isSome := by
    have hview := h.lookahead
    generalize l.lookahead = a, m.lookahead = b at hview ⊢
    cases hview <;> rfl
  rw [Lexer.isDone_apply, Lexer.isDone_apply, hview, h.pending, atEnd h.skipTrivia.cursor]
  split
  · exact .ok rfl h
  · exact .ok rfl h.skipTrivia

theorem simulates_collectUntil {β : Type} {go go' : β → Token → Option β}
    (hgo : ∀ b t, go' b (t.relocate R.move) = go b t) (b : β) :
    Simulates R.SameLexer R.SameTokens R.error (Rules.collectUntil p go b)
      (Rules.collectUntil q go' b) := by
  refine simulates_bind (simulates_unfold size_of_sameLexer (f := Token.relocate R.move) ?_ b) ?_
  · intro b
    refine simulates_after simulates_isDone fun done => ?_
    refine simulates_ite Iff.rfl (simulates_pure rfl) ?_
    refine simulates_bind (simulates_peek hinner) fun t u htoken => ?_
    subst htoken
    cases t with
    | none => exact simulates_pure rfl
    | some t =>
      simp only [Option.map_some, hgo]
      cases go b t with
      | none => exact simulates_pure rfl
      | some b' =>
        refine simulates_bind (simulates_next hinner) fun t u htoken => simulates_pure ?_
        rw [htoken]
        cases t <;> rfl
  · intro ts us htokens
    refine simulates_after (simulates_modify fun _ _ h => h.unconsume) fun _ => ?_
    exact simulates_pure htokens

theorem simulates_interpolated :
    Simulates R.SameLexer R.SameTokens R.error (Rules.interpolated p) (Rules.interpolated q) := by
  refine simulates_bind (simulates_collectUntil hinner (fun _ t => ?_) ()) fun ts us htokens => ?_
  · rw [Token.isOp_relocate]
  · refine simulates_get_bind fun l m h => ?_
    have hempty : us.isEmpty = ts.isEmpty := by
      rw [htokens]
      exact List.isEmpty_map
    have hthrow : Simulates R.SameLexer Eq R.error
        (throw (l.cursor.unexpected "expression") : LexM PUnit)
        (throw (m.cursor.unexpected "expression")) :=
      simulates_throw (R.unexpected _ h.cursor)
    -- An empty interpolation is an error in both texts or in neither.
    have hafter : ∀ {rest rest' : LexM (List Token)},
        Simulates R.SameLexer R.SameTokens R.error rest rest' →
        Simulates R.SameLexer R.SameTokens R.error
          (if ts.isEmpty then throw (l.cursor.unexpected "expression") >>= fun _ : PUnit =>
            rest else rest)
          (if us.isEmpty then throw (m.cursor.unexpected "expression") >>= fun _ : PUnit => rest'
            else rest') :=
      fun hrest => simulates_ite (by rw [hempty]) (simulates_after hthrow fun _ => hrest) hrest
    refine hafter ?_
    unfold Cursor.pass?
    rw [R.rest h.cursor]
    cases Recognizer.literal ['}'] l.cursor.rest with
    | none => exact simulates_throw (R.unexpected _ h.cursor)
    | some n =>
      have hbrace := R.advance n h.cursor
      refine simulates_after (simulates_modify fun _ _ h => ?_) fun _ => simulates_pure htokens
      exact { h with cursor := hbrace, previousEnd := hbrace }

end

/-- **The rule for interpolations cannot tell places that look alike apart.** -/
theorem simulates_interpolation :
    Simulates R.SameLexer R.SameTokens R.error Lexer.interpolation Lexer.interpolation :=
  simulates_recurse (fun _ _ h => left h.cursor)
    (simulates_get_bind fun _ _ h => simulates_throw h.failure) fun _ _ => simulates_interpolated

/-- **All tokens are the same, elsewhere.** -/
theorem simulates_all : Simulates R.SameLexer R.SameTokens R.error Lexer.all Lexer.all := by
  refine simulates_unfold size_of_sameLexer (fun _ => ?_) ()
  refine simulates_bind (simulates_next simulates_interpolation) fun t u htoken => ?_
  subst htoken
  cases t <;> exact simulates_pure rfl

theorem simulates_takeUntil {p : Token → Bool} (hp : ∀ t : Token, p (t.relocate R.move) = p t) :
    Simulates R.SameLexer R.SameTokens R.error (Lexer.takeUntil p) (Lexer.takeUntil p) :=
  simulates_collectUntil simulates_interpolation (fun _ t => by rw [hp]) ()

end Replica
end Stylesheet
