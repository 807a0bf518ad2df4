import Stylesheet.Proofs.Lexeme
import Stylesheet.Proofs.Outcome
import Stylesheet.Proofs.Place
import Stylesheet.Token.Read

/-!
# Reading one token

What a lexer does to read, to look ahead and to consume is said here once.  Each of its operations
has an equation that takes it apart (`isDone_apply`, `read_apply`, …), and `Reading` lists the three
ways in which a token comes about: as the next segment of a string that goes on, by one of the rules
for lexemes, or as a special function.  However a read ends, it moves the cursor forward and changes
nothing of what the lexer remembers of the tokens before (`Moved`).

Special functions are read by a rule for interpolations, which is a parameter here.  Nothing in this
module depends on what that rule does.
-/
namespace Stylesheet

/-- The lookahead that a lexeme makes at a place. -/
def Lexeme.ahead (x : Lexeme) (c : Cursor) : Lookahead :=
  ⟨⟨x.kind, c.location⟩, c, x.opens, []⟩

namespace Lexer

/-- The second lexer is the first with its cursor moved forward, and perhaps without the wording of
what is expected. -/
def Moved (l m : Lexer) : Prop :=
  l.cursor.Before m.cursor ∧ ∃ wording, m = { l with cursor := m.cursor, expected := wording }

theorem Moved.refl (l : Lexer) : Moved l l :=
  ⟨.refl _, _, rfl⟩

theorem skipTrivia_eq {l : Lexer} (h : Recognizer.trivia l.cursor.rest = none) :
    l.skipTrivia = l := by
  rw [skipTrivia, Cursor.skip, Cursor.pass?, h]
  rfl

theorem moved_skipTrivia (l : Lexer) : Moved l l.skipTrivia :=
  ⟨(Cursor.Before.refl _).skip _, _, rfl⟩

section
variable {l m : Lexer} (h : Moved l m)
include h

theorem Moved.depth : m.depth = l.depth := by
  obtain ⟨_, _, h⟩ := h
  rw [h, Lexer.depth, Lexer.depth]

theorem Moved.pending : m.pending = l.pending := by
  obtain ⟨_, _, h⟩ := h
  rw [h, Lexer.pending, Lexer.pending]

theorem Moved.lookahead : m.lookahead = l.lookahead := by
  obtain ⟨_, _, h⟩ := h
  rw [h]

end

theorem Moved.trans {l m n : Lexer} (h : Moved l m) (h' : Moved m n) : Moved l n := by
  obtain ⟨hc, w, hm⟩ := h
  obtain ⟨hc', w', hn⟩ := h'
  refine ⟨hc.trans hc', w', ?_⟩
  rw [hn, hm]

/-- The place where the next token starts.  White space and comments come before it, unless a string
goes on here. -/
def tokenStart (l : Lexer) : Cursor :=
  if l.pending.isSome then l.cursor else l.skipTrivia.cursor

theorem before_tokenStart (l : Lexer) : l.cursor.Before l.tokenStart := by
  unfold tokenStart
  split
  · exact .refl _
  · exact (Cursor.Before.refl _).skip _

theorem isDone_apply (l : Lexer) :
    isDone l =
      if l.lookahead.isSome || l.pending.isSome then .ok false l
      else .ok l.skipTrivia.cursor.atEnd l.skipTrivia := by
  unfold isDone
  rw [bind_apply, get_apply]
  simp only
  split <;> rfl

namespace Rules

variable (interpolation : LexM (List Token))

/-- How many characters at the front of a text a special function keeps as they are, unless an
interpolation starts there. -/
def rawLength? : Text → Option Nat
  | '\\' :: _ => some 2
  | '#' :: '{' :: _ => none
  | _ => some 1

theorem rawLength?_eq_none {t : Text} (h : rawLength? t = none) : ∃ u, t = '#' :: '{' :: u := by
  unfold rawLength? at h
  split at h
  · cases h
  · exact ⟨_, rfl⟩
  · cases h

/-- The next part of a special function that goes up to a place, if there is one. -/
def piece (stop : Cursor) : LexM (List Piece × Option Unit) := fun l =>
  if stop.offset ≤ l.cursor.offset then .ok ([], none) l
  else
    match rawLength? l.cursor.rest with
    | some n =>
      .ok ([.raw (l.cursor.rest.take n)], some ()) { l with cursor := l.cursor.advance n }
    | none =>
      match interpolation { l with cursor := l.cursor.advance 2 } with
      | .ok tokens m => .ok ([.interpolation tokens], some ()) m
      | .error e m => .error e m

theorem pieces_eq (stop : Cursor) :
    pieces interpolation stop = unfold size (fun () => piece interpolation stop) () := by
  unfold pieces
  congr 1
  funext _ l
  rw [bind_apply, get_apply]
  unfold piece
  simp only
  by_cases hstop : stop.offset ≤ l.cursor.offset
  · rw [if_pos hstop, if_pos hstop]
    rfl
  · rw [if_neg hstop, if_neg hstop]
    generalize hrest : l.cursor.rest = t
    have hraw : ∀ n, pieces.raw l.cursor n l =
        .ok ([.raw (t.take n)], some ()) { l with cursor := l.cursor.advance n } := by
      intro n
      rw [← hrest]
      rfl
    fun_cases rawLength? t with
    | case1 => exact hraw 2
    | case2 =>
      simp only [bind_apply, modify_apply]
      cases interpolation { l with cursor := l.cursor.advance 2 } <;> rfl
    | case3 _ hescape hopen =>
      split
      · exact (hescape _ rfl).elim
      · exact (hopen _ rfl).elim
      · exact hraw 1

theorem special_apply (head : Nat) (l : Lexer) :
    special interpolation head l =
      match (l.cursor.advance head).rest.balancedLength? with
      | none =>
        .error ((l.cursor.advance head).unexpected "\")\"")
          { l with cursor := l.cursor.advance head }
      | some n =>
        match pieces interpolation ((l.cursor.advance head).advance n)
            (ofCursor (l.cursor.advance head) l.options) with
        | .error e _ => .error e { l with cursor := l.cursor.advance head }
        | .ok parts inner =>
          .ok (.special (Piece.join (.raw (l.cursor.rest.take head) :: parts)), inner.warnings)
            { l with cursor := (l.cursor.advance head).advance n } := by
  unfold special
  simp only [bind_apply, get_apply, modify_apply]
  cases (l.cursor.advance head).rest.balancedLength? with
  | none => rfl
  | some n =>
    simp only [bind_apply, get_apply]
    cases pieces interpolation ((l.cursor.advance head).advance n)
      (ofCursor (l.cursor.advance head) l.options) <;> rfl

theorem token_apply (l : Lexer) :
    token interpolation l =
      match Lexeme.at? (0 < l.depth) l.cursor.rest with
      | some x => .ok (x.ahead l.cursor) { l with cursor := l.cursor.advance x.length }
      | none =>
        match Recognizer.specialHead l.cursor.rest with
        | none => .error l.failure l
        | some n =>
          match special interpolation n l with
          | .ok (kind, warnings) m => .ok ⟨⟨kind, l.cursor.location⟩, l.cursor, none, warnings⟩ m
          | .error e m => .error e m := by
  unfold token Lexeme.at?
  rw [bind_apply, get_apply]
  simp only
  cases Lexeme.leading? l.cursor.rest with
  | some x => rfl
  | none =>
    cases Recognizer.specialHead l.cursor.rest with
    | some n =>
      simp only [bind_apply]
      cases special interpolation n l <;> rfl
    | none => cases Lexeme.trailing? (0 < l.depth) l.cursor.rest <;> rfl

theorem read_apply (l : Lexer) :
    read interpolation l =
      match l.pending with
      | some q =>
        match Lexeme.segment? q l.cursor.rest with
        | some x => .ok (some (x.ahead l.cursor)) { l with cursor := l.cursor.advance x.length }
        | none => .error l.failure l
      | none =>
        if l.skipTrivia.cursor.atEnd then .ok none l.skipTrivia
        else
          match token interpolation l.skipTrivia with
          | .ok ahead m => .ok (some ahead) { m with expected := none }
          | .error e m => .error e m := by
  unfold read
  rw [bind_apply, get_apply]
  simp only
  cases l.pending with
  | some q =>
    simp only
    cases Lexeme.segment? q l.cursor.rest <;> rfl
  | none =>
    simp only [bind_apply, get_apply, modify_apply]
    split
    · rfl
    · rw [bind_apply]
      cases token interpolation l.skipTrivia <;> rfl

theorem peek_apply (l : Lexer) :
    peek interpolation l =
      match l.lookahead with
      | some ahead => .ok (some ahead.token) l
      | none =>
        match read interpolation l with
        | .ok ahead m => .ok (ahead.map (·.token)) { m with lookahead := ahead }
        | .error e m => .error e m := by
  unfold peek
  rw [bind_apply, get_apply]
  cases h : l.lookahead with
  | some ahead =>
    simp only [h, Option.isNone_some, Bool.false_eq_true, if_false, bind_apply, get_apply,
      pure_apply, Option.map_some]
  | none =>
    simp only [h, Option.isNone_none, if_true, bind_apply]
    cases read interpolation l <;> rfl

theorem next_apply (l : Lexer) :
    next interpolation l =
      match l.lookahead with
      | some ahead => .ok (some ahead.token) (l.consume ahead)
      | none =>
        match read interpolation l with
        | .ok (some ahead) m => .ok (some ahead.token) (m.consume ahead)
        | .ok none m => .ok none m
        | .error e m => .error e m := by
  unfold next
  rw [bind_apply, get_apply]
  simp only
  cases l.lookahead with
  | some ahead => rfl
  | none =>
    simp only [bind_apply]
    rcases read interpolation l with ⟨_ | _, _⟩ | _ <;> rfl

/-! ### How a token comes about -/

/-- A token found at a place, for a lexer that reads it there, and the place behind it. -/
inductive TokenAt (l : Lexer) : Lookahead → Cursor → Prop
  /-- The next segment of a string. -/
  | segment (c : Cursor) (q : Quote) (x : Lexeme) (pending : l.pending = some q)
      (found : Lexeme.segment? q c.rest = some x) : TokenAt l (x.ahead c) (c.advance x.length)
  /-- A token by the rules for lexemes. -/
  | lexeme (c : Cursor) (x : Lexeme) (pending : l.pending = none)
      (found : Lexeme.at? (0 < l.depth) c.rest = some x) :
      TokenAt l (x.ahead c) (c.advance x.length)
  /-- A special function, whose beginning takes `head` characters and whose rest takes `body`. -/
  | special (c : Cursor) (head body : Nat) (parts : List Piece) (inner : Lexer)
      (pending : l.pending = none) (begins : Recognizer.specialHead c.rest = some head)
      (balanced : (c.advance head).rest.balancedLength? = some body)
      (read : pieces interpolation ((c.advance head).advance body)
        (ofCursor (c.advance head) l.options) = .ok parts inner) :
      TokenAt l
        ⟨⟨.special (Piece.join (.raw (c.rest.take head) :: parts)), c.location⟩, c, none,
          inner.warnings⟩
        ((c.advance head).advance body)

variable {interpolation}

theorem TokenAt.before {l : Lexer} {ahead : Lookahead} {d : Cursor}
    (h : TokenAt interpolation l ahead d) : ahead.start.Before d := by
  cases h with
  | segment c _ x => exact Cursor.before_advance x.length c
  | lexeme c x => exact Cursor.before_advance x.length c
  | special c head body => exact (Cursor.before_advance head c).advance body

/-- What a lexer finds at a place depends on what it remembers of the tokens before, and on nothing
else of its state. -/
theorem TokenAt.congr {l m : Lexer} {ahead : Lookahead} {d : Cursor}
    (h : TokenAt interpolation l ahead d) (hpending : m.pending = l.pending)
    (hdepth : m.depth = l.depth) (hoptions : m.options = l.options) :
    TokenAt interpolation m ahead d := by
  cases h with
  | segment c q x pending found => exact .segment c q x (hpending.trans pending) found
  | lexeme c x pending found => exact .lexeme c x (hpending.trans pending) (hdepth ▸ found)
  | special c head body parts inner pending begins balanced read =>
    exact .special c head body parts inner (hpending.trans pending) begins balanced
      (hoptions ▸ read)

variable (interpolation)

theorem ends_special (head : Nat) (l : Lexer) :
    Ends (special interpolation head) l
      (fun r m => ∃ body parts inner,
        (l.cursor.advance head).rest.balancedLength? = some body ∧
        pieces interpolation ((l.cursor.advance head).advance body)
          (ofCursor (l.cursor.advance head) l.options) = .ok parts inner ∧
        r = (.special (Piece.join (.raw (l.cursor.rest.take head) :: parts)), inner.warnings) ∧
        m = { l with cursor := (l.cursor.advance head).advance body })
      (fun _ m => Moved l m) := by
  have hmoved : Moved l { l with cursor := l.cursor.advance head } :=
    ⟨Cursor.before_advance head l.cursor, _, rfl⟩
  unfold Ends
  rw [special_apply]
  cases hbody : (l.cursor.advance head).rest.balancedLength? with
  | none => exact hmoved
  | some body =>
    cases hpieces : pieces interpolation ((l.cursor.advance head).advance body)
        (ofCursor (l.cursor.advance head) l.options) with
    | error e inner => simp only [hpieces]; exact hmoved
    | ok parts inner => simp only [hpieces]; exact ⟨body, parts, inner, rfl, hpieces, rfl, rfl⟩

theorem ends_token {l : Lexer} (hpending : l.pending = none) :
    Ends (token interpolation) l
      (fun ahead m => ahead.start = l.cursor ∧ TokenAt interpolation l ahead m.cursor ∧ Moved l m)
      (fun _ m => Moved l m) := by
  unfold Ends
  rw [token_apply]
  cases hfound : Lexeme.at? (0 < l.depth) l.cursor.rest with
  | some x =>
    exact ⟨rfl, .lexeme l.cursor x hpending hfound, Cursor.before_advance x.length l.cursor, _, rfl⟩
  | none =>
    cases hhead : Recognizer.specialHead l.cursor.rest with
    | none => exact .refl l
    | some head =>
      have hspecial := ends_special interpolation head l
      cases hrun : special interpolation head l with
      | error e m => simp only [hrun]; exact hspecial.of_error hrun
      | ok r m =>
        simp only [hrun]
        obtain ⟨body, parts, inner, hbody, hpieces, rfl, rfl⟩ := hspecial.of_ok hrun
        refine ⟨trivial,
          .special l.cursor head body parts inner hpending hhead hbody hpieces, ?_, _, rfl⟩
        exact (Cursor.before_advance head l.cursor).advance body

/-- **What a lexer reads.**  A read finds a token at the place where the next one starts, or it
finds nothing left behind white space and comments, or it fails; it moves the cursor and does
nothing else. -/
theorem ends_read (l : Lexer) :
    Ends (read interpolation) l
      (fun found m => Moved l m ∧ match found with
        | some ahead => ahead.start = l.tokenStart ∧ TokenAt interpolation l ahead m.cursor
        | none => l.pending = none ∧ m = l.skipTrivia ∧ m.cursor.atEnd = true)
      (fun _ m => Moved l m) := by
  unfold Ends
  rw [read_apply]
  cases hpending : l.pending with
  | some q =>
    have hstart : l.tokenStart = l.cursor := by
      rw [tokenStart, hpending, Option.isSome_some, if_pos rfl]
    cases hsegment : Lexeme.segment? q l.cursor.rest with
    | none => simp only [hsegment]; exact .refl l
    | some x =>
      simp only [hsegment]
      exact ⟨⟨Cursor.before_advance x.length l.cursor, _, rfl⟩, hstart.symm,
        .segment l.cursor q x hpending hsegment⟩
  | none =>
    have hstart : l.tokenStart = l.skipTrivia.cursor := by
      rw [tokenStart, hpending, Option.isSome_none, if_neg Bool.false_ne_true]
    have hskip := moved_skipTrivia l
    simp only
    cases hend : l.skipTrivia.cursor.atEnd with
    | true =>
      simp only [if_true]
      exact ⟨hskip, trivial, trivial, hend⟩
    | false =>
      simp only [Bool.false_eq_true, if_false]
      have htoken := ends_token interpolation (hskip.pending.trans hpending)
      cases hrun : token interpolation l.skipTrivia with
      | error e m => exact hskip.trans (htoken.of_error hrun)
      | ok ahead m =>
        obtain ⟨hplace, hat, hmoved⟩ := htoken.of_ok hrun
        obtain ⟨hbefore, wording, hm⟩ := hskip.trans hmoved
        refine ⟨⟨hbefore, none, by rw [hm]⟩, hplace.trans hstart.symm, ?_⟩
        exact hat.congr hskip.pending.symm hskip.depth.symm rfl

/-! ### Reading what is known to be there -/

theorem read_lexeme {l : Lexer} (hpending : l.pending = none) {x : Lexeme}
    (hend : l.skipTrivia.cursor.atEnd = false)
    (hfound : Lexeme.at? (0 < l.depth) l.skipTrivia.cursor.rest = some x) :
    read interpolation l =
      .ok (some (x.ahead l.skipTrivia.cursor))
        { l with cursor := l.skipTrivia.cursor.advance x.length, expected := none } := by
  rw [read_apply, hpending]
  simp only [hend, Bool.false_eq_true, if_false, token_apply, (moved_skipTrivia l).depth, hfound]
  rfl

theorem read_segment {l : Lexer} {q : Quote} (hpending : l.pending = some q) {x : Lexeme}
    (hfound : Lexeme.segment? q l.cursor.rest = some x) :
    read interpolation l =
      .ok (some (x.ahead l.cursor)) { l with cursor := l.cursor.advance x.length } := by
  rw [read_apply, hpending]
  simp only [hfound]

end Rules
end Lexer
end Stylesheet
