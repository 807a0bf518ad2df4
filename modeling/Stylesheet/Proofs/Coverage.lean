import Stylesheet.Proofs.Session
import Stylesheet.Proofs.Stable

/-!
# Tokens cover the text

The tokens that a lexer consumes one after the other lie in the text in their order, and between two
of them there is nothing but white space and comments (`Session.reads_covers`).  So nothing of the
text is lost, and nothing is read twice.  What an operator, an address, a range of code points or an
identifier tells of its text is what stands there (`TokenKind.WrittenAs`).
-/
namespace Stylesheet

/-- What may stand between two tokens: nothing, or white space and comments from end to end. -/
def Skipped (t : Text) : Prop :=
  t = [] ∨ Recognizer.trivia t = some t.length

/-- What a token tells of the text it was read from. -/
def TokenKind.WrittenAs (kind : TokenKind) (t : Text) : Prop :=
  match kind with
  | .op o => t = o.text.toList
  | .uri written => t = written
  | .unicodeRange written => t = written
  | .ident name => Text.unescape t = name
  | _ => True

/-- White space and comments are that also when nothing follows them. -/
theorem skipped_take {t : Text} {n : Nat} (h : Recognizer.trivia t = some n) :
    Skipped (t.take n) := by
  obtain ⟨hpos, hlength⟩ := Recognizer.trivia_eq_some.mp h
  have htake : (t.take n).length = n := by
    have hle := Text.triviaLength_le t
    rw [List.length_take]
    omega
  refine .inr (Recognizer.trivia_eq_some.mpr ⟨by omega, ?_⟩)
  have hwhole : Text.triviaLength (t.take n ++ t.drop n) = n := by
    rw [List.take_append_drop, hlength]
  rw [← Text.triviaLength_within (u := t.drop n) (by omega), hwhole, htake]

theorem Cursor.textSince_self (c : Cursor) : c.textSince c = [] := by
  have htext := Cursor.textSince_advance 0 c
  rwa [Cursor.advance_zero, List.take_zero] at htext

namespace Lexeme

/-! ### What tokens tell of their text -/

theorem writtenAs_span {form : Recognizer} {kind : Text → TokenKind}
    (hkind : ∀ t, (kind t).WrittenAs t) {t : Text} {x : Lexeme} (h : span? form kind t = some x) :
    x.kind.WrittenAs (t.take x.length) := by
  obtain ⟨n, _, rfl⟩ := Option.map_eq_some_iff.mp h
  exact hkind (t.take n)

theorem writtenAs_wordOp {t : Text} {x : Lexeme} (h : wordOp? t = some x) :
    x.kind.WrittenAs (t.take x.length) := by
  have hword : ∀ o : Op, word? o.text (.op o) t = some x → x.kind.WrittenAs (t.take x.length) := by
    intro o hx
    obtain ⟨n, hn, rfl⟩ := Option.map_eq_some_iff.mp hx
    obtain ⟨m, hm, hend⟩ := Option.bind_eq_some_iff.mp hn
    obtain ⟨⟨u, rfl⟩, rfl⟩ := Recognizer.literal_eq_some.mp hm
    split at hend
    · cases hend
    · cases hend
      exact List.take_left
  rcases orElse_eq_some_iff.mp h with h | ⟨_, h⟩
  · exact hword .and h
  · rcases orElse_eq_some_iff.mp h with h | ⟨_, h⟩
    · exact hword .or h
    · exact hword .not h

/-- The two closing braces have the same text. -/
theorem writtenAs_symbol {inside : Bool} {t : Text} {x : Lexeme} (h : symbol? inside t = some x) :
    x.kind.WrittenAs (t.take x.length) := by
  obtain ⟨o, ho, rfl⟩ := Option.map_eq_some_iff.mp h
  have hfront : o.text.toList <+: t := List.isPrefixOf_iff_prefix.mp
    (List.find?_some (p := fun op : Op => op.text.toList.isPrefixOf t) ho)
  obtain ⟨u, rfl⟩ := hfront
  have htake : (o.text.toList ++ u).take o.text.length = o.text.toList := by
    rw [← String.length_toList]
    exact List.take_left
  show TokenKind.WrittenAs (if o = .closeBrace ∧ inside then .op .closeInterpolation else .op o) _
  rw [htake]
  split
  · next hclose =>
    rw [hclose.1]
    rfl
  · rfl

theorem writtenAs_of_at? {inside : Bool} {t : Text} {x : Lexeme} (h : at? inside t = some x) :
    x.kind.WrittenAs (t.take x.length) := by
  cases takenBy_of_at? h with
  | reference found =>
    obtain ⟨_, _, _, hkind, _⟩ := reference?_eq_some found
    rw [hkind]
    trivial
  | string q found =>
    obtain ⟨⟨_, hkind⟩, _⟩ := string?_eq_some found
    rw [hkind]
    trivial
  | number found =>
    obtain ⟨_, _, _, hkind⟩ := number?_eq_some found
    rw [hkind]
    trivial
  | color found =>
    obtain ⟨_, _, hkind⟩ := color?_eq_some found
    rw [hkind]
    trivial
  | bool found =>
    obtain ⟨_, _, hkind⟩ := bool?_eq_some found
    rw [hkind]
    trivial
  | uri found =>
    have hkind : ∀ v, (TokenKind.uri v).WrittenAs v := fun _ => rfl
    exact writtenAs_span hkind found
  | unicodeRange found =>
    have hkind : ∀ v, (TokenKind.unicodeRange v).WrittenAs v := fun _ => rfl
    exact writtenAs_span hkind found
  | wordOp found => exact writtenAs_wordOp found
  | ident found =>
    obtain ⟨n, _, rfl⟩ := Option.map_eq_some_iff.mp found
    rfl
  | symbol found => exact writtenAs_symbol found

end Lexeme

namespace Lexer

variable {interpolation : LexM (List Token)} {l : Lexer} {ahead : Lookahead} {d : Cursor}

theorem Rules.TokenAt.location (h : Rules.TokenAt interpolation l ahead d) :
    ahead.token.location = ahead.start.location := by
  cases h <;> rfl

theorem Rules.TokenAt.writtenAs (h : Rules.TokenAt interpolation l ahead d) :
    ahead.token.kind.WrittenAs (d.textSince ahead.start) := by
  cases h with
  | segment c q x pending found =>
    obtain ⟨⟨_, hkind⟩, _⟩ := Lexeme.segment?_eq_some found
    show x.kind.WrittenAs _
    rw [hkind]
    trivial
  | lexeme c x pending found =>
    show x.kind.WrittenAs ((c.advance x.length).textSince c)
    rw [Cursor.textSince_advance]
    exact Lexeme.writtenAs_of_at? found
  | special c head body parts inner => trivial

/-- What stands before the next token. -/
theorem skipped_tokenStart (l : Lexer) : Skipped (l.tokenStart.textSince l.cursor) := by
  unfold tokenStart
  split
  · rw [Cursor.textSince_self]
    exact .inl rfl
  · show Skipped ((l.cursor.skip Recognizer.trivia).textSince l.cursor)
    unfold Cursor.skip Cursor.pass?
    cases htrivia : Recognizer.trivia l.cursor.rest with
    | none =>
      exact .inl (Cursor.textSince_self _)
    | some n =>
      show Skipped ((l.cursor.advance n).textSince l.cursor)
      rw [Cursor.textSince_advance]
      exact skipped_take htrivia

/-- What is left where nothing is left to read. -/
theorem skipped_rest (h : l.skipTrivia.cursor.atEnd = true) : Skipped l.cursor.rest := by
  replace h : (l.cursor.skip Recognizer.trivia).rest.isEmpty = true := h
  unfold Cursor.skip Cursor.pass? at h
  cases htrivia : Recognizer.trivia l.cursor.rest with
  | none =>
    rw [htrivia] at h
    exact .inl (List.isEmpty_iff.mp h)
  | some n =>
    rw [htrivia] at h
    have hrest : l.cursor.rest.drop n = [] := List.isEmpty_iff.mp h
    have hskipped := skipped_take htrivia
    rwa [List.take_of_length_le (List.drop_eq_nil_iff.mp hrest)] at hskipped

/-- A lexer with no token in view consumes what it reads. -/
theorem exists_of_next {t : Token} {m : Lexer} (hview : l.lookahead = none)
    (h : next l = .ok (some t) m) :
    ∃ ahead k, Rules.read Lexer.interpolation l = .ok (some ahead) k ∧ ahead.token = t ∧
      m = k.consume ahead := by
  replace h : Rules.next Lexer.interpolation l = _ := h
  rw [Rules.next_apply, hview] at h
  simp only at h
  split at h
  · next ahead k hread =>
    cases h
    exact ⟨ahead, k, hread, rfl, rfl⟩
  · cases h
  · cases h

end Lexer

/-! ### Covering a text -/

/-- A token behind a place, with nothing between them that is read. -/
structure Follows (e : Cursor) (u : Consumed) : Prop where
  ahead : e.Before u.start
  before : u.start.Before u.stop
  location : u.token.location = u.start.location
  order : e.offset ≤ u.token.location.offset ∧ u.token.location.offset ≤ u.stop.offset
  gap : Skipped (u.start.textSince e)
  /-- A string goes on right there. -/
  resumed : u.resumed = true → u.start.textSince e = []
  writtenAs : u.token.kind.WrittenAs (u.stop.textSince u.start)

/-- The place behind some tokens, or where they begin if there are none. -/
def endOf (c : Cursor) (us : List Consumed) : Cursor :=
  us.foldl (fun _ u => u.stop) c

/-- Each of some tokens follows the one before it, and the first of them a place. -/
def Covers : Cursor → List Consumed → Prop
  | _, [] => True
  | c, u :: us => Follows c u ∧ Covers u.stop us

@[simp] theorem endOf_concat (c : Cursor) (us : List Consumed) (u : Consumed) :
    endOf c (us ++ [u]) = u.stop := by
  rw [endOf, List.foldl_append]
  rfl

theorem Covers.concat {c : Cursor} {us : List Consumed} {u : Consumed} (h : Covers c us)
    (hu : Follows (endOf c us) u) : Covers c (us ++ [u]) := by
  induction us generalizing c with
  | nil => exact ⟨hu, trivial⟩
  | cons v us ih => exact ⟨h.1, ih h.2 hu⟩

namespace Session

/-- The session behind a number of calls for the next token, or behind the last of them that gives
one. -/
def reads : Nat → Session → Session
  | 0, s => s
  | n + 1, s =>
    match s.lexer.offer with
    | .ok (some _) => reads n (s.ask .next)
    | _ => s

/-- The tokens of a session cover the text from a place to where its lexer stands. -/
structure Complete (c : Cursor) (s : Session) : Prop where
  covers : Covers c s.consumed
  cursor : s.lexer.cursor = endOf c s.consumed
  previousEnd : s.lexer.previousEnd = endOf c s.consumed
  fresh : s.lexer.lookahead = none

/-- **The next token follows the last one.** -/
theorem Complete.ask {c : Cursor} {s : Session} (h : Complete c s) {t : Token} {l : Lexer}
    (hnext : Lexer.next s.lexer = .ok (some t) l) : Complete c (s.ask .next) := by
  have hask : s.ask .next =
      ⟨l, s.consumed ++ [⟨t, s.lexer.nextStart, l.previousEnd, s.lexer.pending.isSome⟩]⟩ := by
    rw [Session.ask, hnext]
  obtain ⟨ahead, k, hread, rfl, rfl⟩ := Lexer.exists_of_next h.fresh hnext
  obtain ⟨-, hplace, htoken⟩ := (Lexer.Rules.ends_read Lexer.interpolation s.lexer).of_ok hread
  have hstart : s.lexer.nextStart = ahead.start := by
    rw [Lexer.nextStart, h.fresh]
    exact hplace.symm
  rw [Lexer.previousEnd_consume, hstart] at hask
  have hbefore : s.lexer.cursor.Before ahead.start := hplace ▸ Lexer.before_tokenStart s.lexer
  have hoffset : ahead.token.location.offset = ahead.start.offset := by rw [htoken.location]; rfl
  have hfollows : Follows (endOf c s.consumed)
      ⟨ahead.token, ahead.start, k.cursor, s.lexer.pending.isSome⟩ := by
    rw [← h.cursor]
    refine ⟨hbefore, htoken.before, htoken.location, ⟨?_, ?_⟩, ?_, fun hresumed => ?_,
      htoken.writtenAs⟩
    · rw [hoffset]
      exact hbefore.offset_le
    · rw [hoffset]
      exact htoken.before.offset_le
    · show Skipped (ahead.start.textSince s.lexer.cursor)
      rw [hplace]
      exact Lexer.skipped_tokenStart s.lexer
    · show ahead.start.textSince s.lexer.cursor = []
      rw [hplace, Lexer.tokenStart_of_pending hresumed]
      exact Cursor.textSince_self _
  rw [hask]
  refine ⟨h.covers.concat hfollows, ?_, ?_, rfl⟩
  · rw [endOf_concat, Lexer.cursor_consume]
  · rw [endOf_concat, Lexer.previousEnd_consume]

theorem Complete.reads {c : Cursor} (n : Nat) {s : Session} (h : Complete c s) :
    Complete c (reads n s) := by
  induction n generalizing s with
  | zero => exact h
  | succ n ih =>
    rw [Session.reads]
    split
    · next t hoffer =>
      cases hnext : Lexer.next s.lexer with
      | error e l =>
        rw [Lexer.offer, hnext] at hoffer
        cases hoffer
      | ok found l =>
        rw [Lexer.offer, hnext] at hoffer
        cases hoffer
        exact ih (h.ask hnext)
    · exact h

/-- Where no token is left, white space and comments are. -/
theorem Complete.skipped {c : Cursor} {s : Session} (h : Complete c s)
    (hend : s.lexer.offer = .ok none) : Skipped (endOf c s.consumed).rest := by
  rw [← h.cursor]
  have hread := Lexer.Rules.ends_read Lexer.interpolation s.lexer
  rw [Lexer.offer] at hend
  have hnext : Lexer.next s.lexer = _ := Lexer.Rules.next_apply Lexer.interpolation s.lexer
  rw [hnext, h.fresh] at hend
  cases hresult : Lexer.Rules.read Lexer.interpolation s.lexer with
  | error e m =>
    rw [hresult] at hend
    cases hend
  | ok found m =>
    cases found with
    | some ahead =>
      rw [hresult] at hend
      cases hend
    | none =>
      obtain ⟨-, -, rfl, hatEnd⟩ := hread.of_ok hresult
      exact Lexer.skipped_rest hatEnd

/-- **Tokens cover the text without loss or overlap.**  However many tokens are consumed, each of
them follows the one before it, the lexer says of itself that it stands behind the last one, and
where it says that no token is left, nothing is left but white space and comments. -/
theorem reads_covers (c : Cursor) (options : Options) (n : Nat) :
    Covers c ((ofCursor c options).reads n).consumed ∧
      ((ofCursor c options).reads n).lexer.previousEnd =
        endOf c ((ofCursor c options).reads n).consumed ∧
      (((ofCursor c options).reads n).lexer.offer = .ok none →
        Skipped (endOf c ((ofCursor c options).reads n).consumed).rest) := by
  have hstart : Complete c (ofCursor c options) := ⟨trivial, rfl, rfl, rfl⟩
  have h := hstart.reads n
  exact ⟨h.covers, h.previousEnd, h.skipped⟩

end Session
end Stylesheet
