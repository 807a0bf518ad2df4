import Stylesheet.Proofs.Agreement
import Stylesheet.Proofs.ByteForms
import Stylesheet.Proofs.FreshStart

/-!
# Lexers by their bytes

A lexer whose places are found by bytes asks for slices, differences and earlier places, and it
panics where one of them does not exist (`Fault.panic`).  It is the lexer by characters in all else:
it keeps the same state, it goes through the same rules in the same order, and it repeats them as
long.

It never panics: all that it asks for exists.  From a lexer whose places all lie ahead of a place
where a cursor may stand, with a token in view before the cursor (`Lexer.Ranged`), each of its
programs does what the one by characters does and leads to such a lexer again (`Agrees`); so do the
calls of a lexer, in any order (`ByteLexer.after?_eq`).  The rule for the interpolations inside of
special functions is a parameter, one for each of the two.
-/
namespace Stylesheet

/-! ### The lexer -/

/-- Reading by bytes. -/
abbrev ByteLexM := EStateM (Fault SyntaxError) Lexer

namespace ByteLexer

open Lexer (size ofCursor)

/-- The text that is left. -/
def rest : ByteLexM Text := do
  demand (← get).cursor.rest?

/-- Passes a number of bytes, and answers their text. -/
def advance (n : Nat) : ByteLexM Text := do
  let (t, c) ← demand ((← get).cursor.advanceBy? n)
  modify fun l => { l with cursor := c }
  return t

/-- Fails, saying what was expected here. -/
def fail {α : Type} (expected : String) : ByteLexM α := do
  throw (.error (← demand ((← get).cursor.unexpected? expected)))

/-- Fails with the error of a token that none of the rules fits. -/
def failure {α : Type} : ByteLexM α := do
  fail ((← get).expected.getD "expression")

/-- Passes a form of text if it comes next, and answers the text. -/
def take? (form : Recognizer) : ByteLexM (Option Text) := do
  let t ← rest
  match form t with
  | none => return none
  | some n => some <$> advance (Text.byteLength (t.take n))

/-- Goes past white space and comments. -/
def skipTrivia : ByteLexM Unit := do
  let _ ← take? Recognizer.trivia

/-- Whether there is nothing left to read. -/
def isDone : ByteLexM Bool := do
  let l ← get
  if l.lookahead.isSome || l.pending.isSome then
    return false
  skipTrivia
  return (← get).cursor.ends

/-- Puts a token that was only read back. -/
def unconsume : ByteLexM Unit := do
  let l ← get
  match l.lookahead with
  | none => return ()
  | some ahead =>
    let c ← demand (l.cursor.rewind? ahead.start)
    set { l with cursor := c, lookahead := none }

namespace Rules

variable (interpolation : ByteLexM (List Token))

/-- The next part of a special function that goes up to a byte, if there is one. -/
def piece (stop : Nat) : ByteLexM (List Piece × Option Unit) := do
  if stop ≤ (← get).cursor.offset then
    return ([], none)
  let t ← rest
  if ['\\'].isPrefixOf t then
    let escaped := (t.dropBytes? 1).bind List.head?
    let text ← advance (1 + (escaped.map Char.utf8Size).getD 0)
    return ([.raw text], some ())
  else if ['#', '{'].isPrefixOf t then
    let _ ← advance 2
    return ([.interpolation (← interpolation)], some ())
  else
    let text ← advance ((t.head?.map Char.utf8Size).getD 1)
    return ([.raw text], some ())

/-- The parts of a special function from here up to a byte. -/
def pieces (stop : Nat) : ByteLexM (List Piece) :=
  unfold size (fun () => piece interpolation stop) ()

/-- A special function with the text of its beginning. -/
def special (head : Text) : ByteLexM (TokenKind × List Deprecation) := do
  let body ← demand ((← rest).dropBytes? head.byteLength)
  match ← demand body.balancedBytes? with
  | none =>
    let _ ← advance head.byteLength
    fail "\")\""
  | some n =>
    let start ← advance head.byteLength
    let l ← get
    match pieces interpolation (l.cursor.offset + n) (ofCursor l.cursor l.options) with
    | .error e _ => throw e
    | .ok parts inner =>
      let _ ← advance n
      return (.special (Piece.join (.raw start :: parts)), inner.warnings)

/-- Goes past a lexeme and makes it a token. -/
def accept (x : ByteLexeme) : ByteLexM Lookahead := do
  let start := (← get).cursor
  let _ ← advance x.bytes
  return ⟨⟨x.kind, start.location⟩, start, x.opens, []⟩

/-- The token that starts right here. -/
def token : ByteLexM Lookahead := do
  let l ← get
  let t ← rest
  match ← demand (ByteLexeme.leading? t) with
  | some x => accept x
  | none =>
    match Recognizer.specialHead t with
    | some n =>
      let (kind, warnings) ← special interpolation (t.take n)
      return ⟨⟨kind, l.cursor.location⟩, l.cursor, none, warnings⟩
    | none =>
      match ← demand (ByteLexeme.trailing? (0 < l.depth) t) with
      | some x => accept x
      | none => failure

/-- Reads the next token, if there is one. -/
def read : ByteLexM (Option Lookahead) := do
  let l ← get
  match l.pending with
  | some q =>
    match ← demand (ByteLexeme.segment? q 0 (← rest)) with
    | some x => some <$> accept x
    | none => failure
  | none =>
    skipTrivia
    if (← get).cursor.ends then
      return none
    let ahead ← token interpolation
    modify fun l => { l with expected := none }
    return some ahead

/-- Reads the next token without consuming it. -/
def peek : ByteLexM (Option Token) := do
  if (← get).lookahead.isNone then
    let ahead ← read interpolation
    modify fun l => { l with lookahead := ahead }
  return (← get).lookahead.map (·.token)

/-- Consumes the next token. -/
def next : ByteLexM (Option Token) := do
  let ahead ← match (← get).lookahead with
    | some ahead => pure (some ahead)
    | none => read interpolation
  match ahead with
  | none => return none
  | some ahead =>
    modify (Lexer.consume · ahead)
    return some ahead.token

/-- Consumes tokens up to one that stops it, or to the end. -/
def collectUntil {β : Type} (go : β → Token → Option β) (b : β) : ByteLexM (List Token) := do
  let tokens ← unfold size (fun b => do
    if ← isDone then
      return ([], none)
    match ← peek interpolation with
    | none => return ([], none)
    | some t =>
      match go b t with
      | none => return ([], none)
      | some b =>
        let t ← next interpolation
        return (t.toList, some b)) b
  unconsume
  return tokens

/-- The tokens of an interpolation from behind its opening up to its closing brace. -/
def interpolated : ByteLexM (List Token) := do
  let tokens ← collectUntil interpolation
    (fun () t => if t.isOp .closeBrace then none else some ()) ()
  if tokens.isEmpty then
    fail "expression"
  match ← take? (Recognizer.literal ['}']) with
  | none => fail "\"\x7d\""
  | some _ =>
    modify fun l => { l with previousEnd := l.cursor }
    return tokens

end Rules

/-- The tokens of an interpolation from behind its opening up to its closing brace. -/
def interpolation : ByteLexM (List Token) :=
  recurse (fun l => l.cursor.left) failure Rules.interpolated

/-- Reads the next token without consuming it. -/
def peek : ByteLexM (Option Token) :=
  Rules.peek interpolation

/-- Consumes the next token. -/
def next : ByteLexM (Option Token) :=
  Rules.next interpolation

/-- Consumes tokens up to one that stops it, or to the end. -/
def collectUntil {β : Type} (go : β → Token → Option β) (b : β) : ByteLexM (List Token) :=
  Rules.collectUntil interpolation go b

/-- Consumes tokens up to the first that satisfies a predicate, or to the end. -/
def takeUntil (p : Token → Bool) : ByteLexM (List Token) :=
  collectUntil (fun () t => if p t then none else some ()) ()

/-- Consumes all tokens. -/
def all : ByteLexM (List Token) :=
  unfold size (fun () => do
    match ← next with
    | none => return ([], none)
    | some t => return ([t], some ())) ()

/-- A call of a lexer. -/
def reply : Lexer.Call → ByteLexM Lexer.Answer
  | .next => .token <$> next
  | .peek => .token <$> peek
  | .isDone => .done <$> isDone
  | .unconsume => (fun _ => .nothing) <$> unconsume
  | .all => .tokens <$> all
  | .interpolation => .tokens <$> interpolation
  | .takeWarnings => (fun _ => .nothing) <$> modify fun l => l.takeWarnings.2
  | .expect description => (fun _ => .nothing) <$> modify fun l => l.expect description
  | .collectUntil _ go b => .tokens <$> collectUntil go b

/-! ### Single steps -/

section
variable {l : Lexer} (h : l.cursor.Sited)
include h

theorem rest_apply : rest l = .ok l.cursor.rest l := by
  unfold rest
  rw [bind_apply, get_apply]
  simp only [h.rest?_eq]
  rfl

theorem advance_apply (n : Nat) :
    advance (Text.byteLength (l.cursor.rest.take n)) l =
      .ok (l.cursor.rest.take n) { l with cursor := l.cursor.advance n } := by
  unfold advance
  rw [bind_apply, get_apply]
  simp only [h.advanceBy?_take]
  rfl

/-- At the end of the text nothing is passed. -/
theorem advance_of_end (hend : l.cursor.rest = []) (n : Nat) :
    advance n l = .ok [] { l with cursor := l.cursor.advance n } := by
  have hmove := Cursor.advance_min n l.cursor
  rw [hend, List.length_nil, Nat.min_zero] at hmove
  unfold advance
  rw [bind_apply, get_apply]
  simp only [h.advanceBy?_eq, hend, Text.byteLength_nil, Nat.min_zero,
    Text.splitBytes?_zero, ← hmove]
  rfl

theorem fail_apply {α : Type} (expected : String) :
    (fail expected : ByteLexM α) l = .error (.error (l.cursor.unexpected expected)) l := by
  unfold fail
  rw [bind_apply, get_apply]
  simp only [h.unexpected?_eq]
  rfl

theorem failure_apply {α : Type} : (failure : ByteLexM α) l = .error (.error l.failure) l := by
  unfold failure
  rw [bind_apply, get_apply]
  exact fail_apply h _

theorem take?_apply (form : Recognizer) :
    take? form l =
      match form l.cursor.rest with
      | none => .ok none l
      | some n => .ok (some (l.cursor.rest.take n)) { l with cursor := l.cursor.advance n } := by
  unfold take?
  rw [bind_apply, rest_apply h]
  simp only
  cases form l.cursor.rest with
  | none => rfl
  | some n =>
    simp only [map_apply, advance_apply h]

theorem skipTrivia_apply : skipTrivia l = .ok () l.skipTrivia := by
  unfold skipTrivia Lexer.skipTrivia Cursor.skip Cursor.pass?
  rw [bind_apply, take?_apply h]
  cases Recognizer.trivia l.cursor.rest <;> rfl

theorem accept_apply (x : Lexeme) :
    Rules.accept (x.inBytes l.cursor.rest) l =
      .ok (x.ahead l.cursor) { l with cursor := l.cursor.advance x.length } := by
  unfold Rules.accept
  rw [bind_apply, get_apply]
  simp only [bind_apply, Lexeme.inBytes, advance_apply h]
  rfl

theorem isDone_apply :
    isDone l =
      if l.lookahead.isSome || l.pending.isSome then .ok false l
      else .ok l.skipTrivia.cursor.atEnd l.skipTrivia := by
  have hskip : l.skipTrivia.cursor.Sited := h.before ((Cursor.Before.refl _).skip _)
  unfold isDone
  rw [bind_apply, get_apply]
  simp only
  split
  · rfl
  · simp only [bind_apply, skipTrivia_apply h, get_apply, hskip.ends_eq]
    rfl

end

/-- A token that was only read is put back behind the text where it begins. -/
theorem unconsume_apply {l : Lexer} (h : ∀ a ∈ l.lookahead, a.start.Before l.cursor) :
    unconsume l = .ok () l.unconsume := by
  unfold unconsume Lexer.unconsume Lexer.front
  rw [bind_apply, get_apply]
  cases hview : l.lookahead with
  | none =>
    simp only [hview]
    show EStateM.Result.ok () l = .ok () { l with lookahead := none }
    rw [← hview]
  | some ahead =>
    simp only [hview, (h ahead hview).rewind?]
    rfl

/-! ### Lexers whose places lie ahead -/

end ByteLexer

/-- All places of a lexer lie ahead of a place where a cursor may stand, and a token in view begins
before the cursor. -/
structure Lexer.Ranged (c : Cursor) (l : Lexer) : Prop where
  sited : c.Sited
  cursor : c.Before l.cursor
  previousEnd : c.Before l.previousEnd
  lookahead : ∀ a ∈ l.lookahead, c.Before a.start ∧ a.start.Before l.cursor

namespace Lexer.Ranged

variable {c : Cursor} {l : Lexer}

theorem ofCursor {d : Cursor} (h : c.Sited) (hd : c.Before d) (options : Options) :
    Lexer.Ranged c (.ofCursor d options) :=
  ⟨h, hd, hd, nofun⟩

variable (h : l.Ranged c)
include h

theorem stands : l.cursor.Sited :=
  h.sited.before h.cursor

theorem advance (n : Nat) : Lexer.Ranged c { l with cursor := l.cursor.advance n } :=
  { h with
    cursor := h.cursor.advance n
    lookahead := fun a ha => ⟨(h.lookahead a ha).1, (h.lookahead a ha).2.advance n⟩ }

theorem skipTrivia : l.skipTrivia.Ranged c :=
  { h with
    cursor := h.cursor.skip _
    lookahead := fun a ha => ⟨(h.lookahead a ha).1, (h.lookahead a ha).2.skip _⟩ }

theorem unconsume : l.unconsume.Ranged c := by
  refine ⟨h.sited, ?_, h.previousEnd, nofun⟩
  show c.Before l.front
  unfold Lexer.front
  cases hview : l.lookahead with
  | none => exact h.cursor
  | some ahead => exact (h.lookahead ahead hview).1

theorem consume (ahead : Lookahead) : (l.consume ahead).Ranged c where
  sited := h.sited
  cursor := by
    rw [Lexer.cursor_consume]
    exact h.cursor
  previousEnd := by
    rw [Lexer.previousEnd_consume]
    exact h.cursor
  lookahead := nofun

end Lexer.Ranged

namespace ByteLexer

variable {c : Cursor}

theorem agrees_isDone : Agrees (Lexer.Ranged c) Lexer.isDone isDone := by
  refine agrees_of_runs fun l h => ?_
  rw [Lexer.isDone_apply, isDone_apply h.stands]
  split
  · exact matched_ok h
  · exact matched_ok h.skipTrivia

theorem agrees_unconsume : Agrees (Lexer.Ranged c) (modify Lexer.unconsume) unconsume := by
  refine agrees_of_runs fun l h => ?_
  rw [unconsume_apply fun a ha => (h.lookahead a ha).2]
  exact matched_ok h.unconsume

theorem isPrefixOf_eq_false {word t : Text} (h : ∀ u, t = word ++ u → False) :
    word.isPrefixOf t = false := by
  refine Bool.eq_false_iff.mpr fun hprefix => ?_
  obtain ⟨u, rfl⟩ := List.isPrefixOf_iff_prefix.mp hprefix
  exact h u rfl

/-- A part of a special function that is kept as it is takes as many bytes as its characters. -/
theorem matched_raw {l : Lexer} (h : l.Ranged c) (n bytes : Nat)
    (hadvance : advance bytes l =
      .ok (l.cursor.rest.take n) { l with cursor := l.cursor.advance n }) :
    Matched (InStep (Lexer.Ranged c)) Eq Raised
      (.ok ([Piece.raw (l.cursor.rest.take n)], some ()) { l with cursor := l.cursor.advance n })
      ((do
        let text ← advance bytes
        return ([Piece.raw text], some ())) l) := by
  rw [bind_apply, hadvance]
  exact matched_ok (h.advance n)

section
variable {p : LexM (List Token)} {q : ByteLexM (List Token)} (hinner : Agrees (Lexer.Ranged c) p q)
include hinner

theorem agrees_piece (stop : Cursor) :
    Agrees (Lexer.Ranged c) (Lexer.Rules.piece p stop) (Rules.piece q stop.offset) := by
  refine agrees_of_runs fun l h => ?_
  unfold Lexer.Rules.piece Rules.piece
  rw [bind_apply, get_apply]
  simp only
  by_cases hstop : stop.offset ≤ l.cursor.offset
  · rw [if_pos hstop, if_pos hstop]
    exact matched_ok h
  · rw [if_neg hstop, if_neg hstop, bind_apply, rest_apply h.stands]
    have htake := advance_apply h.stands
    have hend := advance_of_end h.stands
    have hraw := matched_raw h
    generalize l.cursor.rest = t at hraw htake hend ⊢
    fun_cases Lexer.Rules.rawLength? t with
    | case1 u =>
      have hescape : ['\\'].isPrefixOf ('\\' :: u) = true := rfl
      have hdrop : Text.dropBytes? ('\\' :: u) 1 = some u := Text.dropBytes?_append ['\\'] u
      have hbytes :
          1 + (u.head?.map Char.utf8Size).getD 0 = Text.byteLength (List.take 2 ('\\' :: u)) := by
        cases u <;> rfl
      simp only [hescape, if_true, hdrop, Option.bind_some, hbytes]
      exact hraw 2 _ (htake 2)
    | case2 u =>
      have hescape : ['\\'].isPrefixOf ('#' :: '{' :: u) = false := rfl
      have hopen : ['#', '{'].isPrefixOf ('#' :: '{' :: u) = true := rfl
      have hpass : advance 2 l = .ok ['#', '{'] { l with cursor := l.cursor.advance 2 } := htake 2
      simp only [hescape, hopen, Bool.false_eq_true, if_false, if_true, bind_apply, hpass]
      rcases hinner.runs (h.advance 2) with ⟨ts, m, hp, hq, hm⟩ | ⟨e, m, hp, hq, hm⟩
      · rw [hp, hq]
        exact matched_ok hm
      · rw [hp, hq]
        exact matched_error hm
    | case3 _ hescape hopen =>
      have hescape' : ['\\'].isPrefixOf t = false := isPrefixOf_eq_false hescape
      have hopen' : ['#', '{'].isPrefixOf t = false := isPrefixOf_eq_false hopen
      simp only [hescape', hopen', Bool.false_eq_true, if_false]
      cases t with
      | nil => exact hraw 1 _ (hend rfl 1)
      | cons x u => exact hraw 1 _ (htake 1)

theorem agrees_pieces (stop : Cursor) :
    Agrees (Lexer.Ranged c) (Lexer.Rules.pieces p stop) (Rules.pieces q stop.offset) := by
  rw [Lexer.Rules.pieces_eq]
  exact agrees_unfold (fun _ => agrees_piece hinner stop) ()

theorem matched_special {l : Lexer} (h : l.Ranged c) (n : Nat) :
    Matched (InStep (Lexer.Ranged c)) Eq Raised (Lexer.Rules.special p n l)
      (Rules.special q (l.cursor.rest.take n) l) := by
  have hbody := h.advance n
  have hdrop : l.cursor.rest.dropBytes? (Text.byteLength (l.cursor.rest.take n)) =
      some (l.cursor.advance n).rest := by
    have hsplit := Text.dropBytes?_append (l.cursor.rest.take n) (l.cursor.rest.drop n)
    rwa [List.take_append_drop, ← Cursor.rest_advance] at hsplit
  rw [Lexer.Rules.special_apply]
  unfold Rules.special
  rw [bind_apply, rest_apply h.stands]
  simp only [hdrop, Text.balancedBytes?_eq, demand, pure_bind]
  cases (l.cursor.advance n).rest.balancedLength? with
  | none =>
    simp only [Option.map_none, bind_apply, advance_apply h.stands]
    rw [fail_apply hbody.stands]
    exact matched_error hbody
  | some m =>
    have hstop : (l.cursor.advance n).offset + Text.byteLength ((l.cursor.advance n).rest.take m) =
        ((l.cursor.advance n).advance m).offset :=
      (Cursor.offset_advance m (l.cursor.advance n)).symm
    -- The parts are read by a lexer of their own, whose places lie ahead of the same place.
    have hinside : (Lexer.ofCursor (l.cursor.advance n) l.options).Ranged c :=
      .ofCursor h.sited hbody.cursor l.options
    simp only [Option.map_some, bind_apply, advance_apply h.stands, get_apply, hstop]
    rcases (agrees_pieces hinner ((l.cursor.advance n).advance m)).runs hinside with
      ⟨parts, inner, hp, hq, -⟩ | ⟨e, inner, hp, hq, -⟩
    · simp only [hp, hq, bind_apply, advance_apply hbody.stands]
      exact matched_ok (hbody.advance m)
    · rw [hp, hq]
      exact matched_error hbody

theorem agrees_token : Agrees (Lexer.Ranged c) (Lexer.Rules.token p) (Rules.token q) := by
  refine agrees_of_runs fun l h => ?_
  have haccept : ∀ x : Lexeme, Matched (InStep (Lexer.Ranged c)) Eq Raised (Lexer.Rules.accept x l)
      (Rules.accept (x.inBytes l.cursor.rest) l) := by
    intro x
    rw [accept_apply h.stands]
    exact matched_ok (h.advance x.length)
  unfold Lexer.Rules.token Rules.token
  rw [bind_apply, bind_apply, get_apply, get_apply]
  simp only [bind_apply, rest_apply h.stands, ByteLexeme.leading?_eq, ByteLexeme.trailing?_eq,
    ByteLexeme.ofMatch?, demand, pure_apply]
  cases Lexeme.leading? l.cursor.rest with
  | some x => exact haccept x
  | none =>
    simp only [Option.map_none]
    cases Recognizer.specialHead l.cursor.rest with
    | some n =>
      have hrun := matched_special hinner h n
      simp only [bind_apply]
      generalize Lexer.Rules.special p n l = r,
        Rules.special q (l.cursor.rest.take n) l = r' at hrun ⊢
      cases hrun with
      | ok answers states => exact .ok (by rw [answers]) states
      | error errors states => exact .error errors states
    | none =>
      simp only [bind_apply, pure_apply]
      cases Lexeme.trailing? (0 < l.depth) l.cursor.rest with
      | some x => exact haccept x
      | none =>
        simp only [Option.map_none]
        rw [failure_apply h.stands]
        exact matched_error h

theorem agrees_read : Agrees (Lexer.Ranged c) (Lexer.Rules.read p) (Rules.read q) := by
  refine agrees_of_runs fun l h => ?_
  rw [Lexer.Rules.read_apply]
  unfold Rules.read
  rw [bind_apply, get_apply]
  cases hpending : l.pending with
  | some quote =>
    simp only [hpending, bind_apply, rest_apply h.stands, ByteLexeme.segment?_front,
      ByteLexeme.ofMatch?, demand, pure_apply]
    cases Lexeme.segment? quote l.cursor.rest with
    | some x =>
      simp only [Option.map_some, map_apply, accept_apply h.stands]
      exact matched_ok (h.advance x.length)
    | none =>
      simp only [Option.map_none]
      rw [failure_apply h.stands]
      exact matched_error h
  | none =>
    have hskip := h.skipTrivia
    simp only [hpending, bind_apply, skipTrivia_apply h.stands, get_apply, hskip.stands.ends_eq]
    by_cases hend : l.skipTrivia.cursor.atEnd = true
    · rw [if_pos hend, if_pos hend]
      exact matched_ok hskip
    · rw [if_neg hend, if_neg hend, bind_apply]
      rcases (agrees_token hinner).runs hskip with ⟨ahead, m, hp, hq, hm⟩ | ⟨e, m, hp, hq, hm⟩
      · rw [hp, hq]
        exact matched_ok { hm with }
      · rw [hp, hq]
        exact matched_error hm

omit hinner in
/-- A token that is read lies ahead, before the place behind it. -/
theorem ranged_of_read {l m : Lexer} (h : l.Ranged c) {found : Option Lookahead}
    (hread : Lexer.Rules.read p l = .ok found m) (hm : m.Ranged c) :
    { m with lookahead := found }.Ranged c := by
  obtain ⟨-, hfound⟩ := (Lexer.Rules.ends_read p l).of_ok hread
  refine { hm with lookahead := ?_ }
  rintro ahead rfl
  obtain ⟨hstart, hat⟩ := hfound
  refine ⟨?_, hat.before⟩
  rw [hstart]
  exact h.cursor.trans l.before_tokenStart

theorem agrees_peek : Agrees (Lexer.Ranged c) (Lexer.Rules.peek p) (Rules.peek q) := by
  refine agrees_of_runs fun l h => ?_
  rw [Lexer.Rules.peek_apply]
  unfold Rules.peek
  rw [bind_apply, get_apply]
  cases hview : l.lookahead with
  | some ahead =>
    simp only [hview, Option.isNone_some, Bool.false_eq_true, if_false, bind_apply, get_apply]
    exact matched_ok h
  | none =>
    simp only [hview, Option.isNone_none, if_true, bind_apply]
    rcases (agrees_read hinner).runs h with ⟨found, m, hp, hq, hm⟩ | ⟨e, m, hp, hq, hm⟩
    · rw [hp, hq]
      exact matched_ok (ranged_of_read h hp hm)
    · rw [hp, hq]
      exact matched_error hm

theorem agrees_next : Agrees (Lexer.Ranged c) (Lexer.Rules.next p) (Rules.next q) := by
  refine agrees_of_runs fun l h => ?_
  rw [Lexer.Rules.next_apply]
  unfold Rules.next
  rw [bind_apply, get_apply]
  cases hview : l.lookahead with
  | some ahead =>
    simp only [hview]
    exact matched_ok (h.consume ahead)
  | none =>
    simp only [hview, bind_apply]
    rcases (agrees_read hinner).runs h with ⟨found, m, hp, hq, hm⟩ | ⟨e, m, hp, hq, hm⟩
    · rw [hp, hq]
      cases found with
      | none => exact matched_ok hm
      | some ahead => exact matched_ok (hm.consume ahead)
    · rw [hp, hq]
      exact matched_error hm

theorem agrees_collectUntil {β : Type} (go : β → Token → Option β) (b : β) :
    Agrees (Lexer.Ranged c) (Lexer.Rules.collectUntil p go b) (Rules.collectUntil q go b) := by
  refine simulates_after (agrees_unfold (fun b => ?_) b) fun ts => ?_
  · refine simulates_after agrees_isDone fun _ => simulates_ite Iff.rfl (simulates_pure rfl) ?_
    refine simulates_after (agrees_peek hinner) fun t => ?_
    cases t with
    | none => exact simulates_pure rfl
    | some t =>
      simp only
      cases go b t with
      | none => exact simulates_pure rfl
      | some b => exact simulates_after (agrees_next hinner) fun _ => simulates_pure rfl
  · exact simulates_after agrees_unconsume fun _ => simulates_pure rfl

theorem agrees_interpolated :
    Agrees (Lexer.Ranged c) (Lexer.Rules.interpolated p) (Rules.interpolated q) := by
  refine simulates_after (agrees_collectUntil hinner _ ()) fun ts => agrees_of_runs fun l h => ?_
  have hbrace : ∀ n,
      Lexer.Ranged c { l with cursor := l.cursor.advance n, previousEnd := l.cursor.advance n } :=
    fun n => { h.advance n with previousEnd := h.cursor.advance n }
  rw [bind_apply, get_apply]
  by_cases hempty : ts.isEmpty = true
  · simp only [if_pos hempty]
    rw [bind_apply, bind_apply, fail_apply h.stands]
    exact matched_error h
  · simp only [if_neg hempty]
    unfold Cursor.pass?
    rw [bind_apply, take?_apply h.stands]
    cases Recognizer.literal ['}'] l.cursor.rest with
    | none =>
      simp only
      rw [fail_apply h.stands]
      exact matched_error h
    | some n => exact matched_ok (hbrace n)

end

/-! ### Calls -/

theorem agrees_interpolation : Agrees (Lexer.Ranged c) Lexer.interpolation interpolation := by
  refine simulates_recurse size_of_inStep ?_ fun _ _ => agrees_interpolated
  refine agrees_of_runs fun l h => ?_
  rw [bind_apply, get_apply, failure_apply h.stands]
  exact matched_error h

theorem agrees_takeUntil (p : Token → Bool) :
    Agrees (Lexer.Ranged c) (Lexer.takeUntil p) (takeUntil p) :=
  agrees_collectUntil agrees_interpolation _ ()

theorem agrees_all : Agrees (Lexer.Ranged c) Lexer.all all := by
  refine agrees_unfold (fun _ => ?_) ()
  refine simulates_after (agrees_next agrees_interpolation) fun t => ?_
  cases t <;> exact simulates_pure rfl

/-- **No call of a lexer asks for what does not exist.** -/
theorem agrees_reply (call : Lexer.Call) : Agrees (Lexer.Ranged c) call.reply (reply call) := by
  cases call with
  | next => exact agrees_map (agrees_next agrees_interpolation)
  | peek => exact agrees_map (agrees_peek agrees_interpolation)
  | isDone => exact agrees_map agrees_isDone
  | unconsume => exact agrees_map agrees_unconsume
  | all => exact agrees_map agrees_all
  | interpolation => exact agrees_map agrees_interpolation
  | takeWarnings => exact agrees_map (agrees_of_runs fun _ h => matched_ok { h with })
  | expect description => exact agrees_map (agrees_of_runs fun _ h => matched_ok { h with })
  | collectUntil _ go b => exact agrees_map (agrees_collectUntil agrees_interpolation go b)

/-- The lexer that a run leaves behind, unless it panics. -/
def left? {α : Type} : EStateM.Result (Fault SyntaxError) Lexer α → Option Lexer
  | .ok _ l => some l
  | .error (.error _) l => some l
  | .error .panic _ => none

/-- The lexer behind one call after another, unless one of them panics. -/
def after? (calls : List Lexer.Call) (l : Lexer) : Option Lexer :=
  calls.foldlM (fun l call => left? (reply call l)) l

theorem left?_unharmed {α : Type} (r : EStateM.Result SyntaxError Lexer α) :
    left? (unharmed r) = some (stateOf r) := by
  cases r <;> rfl

/-- **No sequence of calls asks for what does not exist**, and all places of the lexer lie ahead
behind them. -/
theorem after?_eq {l : Lexer} (h : l.Ranged c) (calls : List Lexer.Call) :
    after? calls l = some (l.after calls) ∧ (l.after calls).Ranged c := by
  induction calls generalizing l with
  | nil => exact ⟨rfl, h⟩
  | cons call calls ih =>
    obtain ⟨hcall, hnext⟩ := (agrees_reply call).eq_unharmed h
    rw [Lexer.Call.stateOf_reply] at hnext
    obtain ⟨hafter, hrange⟩ := ih hnext
    refine ⟨?_, hrange⟩
    unfold after?
    rw [List.foldlM_cons, hcall, left?_unharmed, Lexer.Call.stateOf_reply]
    exact hafter

end ByteLexer
end Stylesheet
