import Stylesheet.Proofs.Splitting

/-!
# Comments that are never closed

A comment reaches from `/*` to the first `*/` behind it, however far away that is.  Where there is
none, the opener is no white space and no comment either, and the rules for tokens are tried on it:
the first of its characters is a division, and the second a multiplication.  There is no other way
to get these two right behind one another (`operators_iff_openComment`), because a lexer that stands
before a token has passed every comment that is closed.  So a missing closer is not reported where
the comment opens.
-/
namespace Stylesheet

namespace Text

/-- A comment opens at the front of a text, and nothing closes it. -/
def OpenComment (t : Text) : Prop :=
  ∃ u, t = '/' :: '*' :: u ∧ ¬ ['*', '/'] <:+: u

theorem commentClose?_eq_none_iff {t : Text} : commentClose? t = none ↔ ¬ ['*', '/'] <:+: t := by
  fun_induction commentClose? t with
  | case1 t =>
    have hcloses : ['*', '/'] <:+: '*' :: '/' :: t := ⟨[], t, rfl⟩
    exact iff_of_false (Option.some_ne_none 2) (not_not_intro hcloses)
  | case2 c t hopen ih =>
    have hfront : ¬ ['*', '/'] <+: c :: t := by
      rintro ⟨u, hu⟩
      cases hu
      exact hopen u rfl rfl
    rw [Option.map_eq_none_iff, ih, List.infix_cons_iff, or_iff_right hfront]
  | case3 => simp

end Text

namespace Recognizer

/-- A comment is passed over exactly if it is closed. -/
theorem trivia_opener_eq_none_iff {u : Text} :
    trivia ('/' :: '*' :: u) = none ↔ ¬ ['*', '/'] <:+: u := by
  have htrivium : trivium ('/' :: '*' :: u) = (Text.commentClose? u).map (· + 2) := by
    have hblanks : blanks ('/' :: '*' :: u) = none := rfl
    have hline : lineComment ('/' :: '*' :: u) = none := rfl
    simp only [trivium, orElse, hblanks, hline, blockComment]
    cases Text.commentClose? u <;> rfl
  rw [← Text.commentClose?_eq_none_iff, trivia_eq_none_iff]
  cases hclose : Text.commentClose? u with
  | none =>
    rw [hclose] at htrivium
    exact ⟨fun _ => rfl, fun _ => Text.triviaLength_of_none htrivium⟩
  | some n =>
    replace htrivium : trivium ('/' :: '*' :: u) = some (n + 2) := by rw [htrivium, hclose]; rfl
    rw [Text.triviaLength_of_some htrivium]
    constructor
    · intro h
      omega
    · rintro ⟨⟩

end Recognizer

namespace Lexeme

theorem at?_divide (inside : Bool) (t : Text) :
    at? inside ('/' :: '*' :: t) = some { kind := .op .divide, length := 1 } := rfl

theorem at?_times (inside : Bool) (t : Text) :
    at? inside ('*' :: t) = some { kind := .op .times, length := 1 } := rfl

end Lexeme

namespace Lexer

variable {l m n : Lexer} {t : Token} {ts : List Token}

/-! ### Operators and their text -/

/-- An operator is consumed where its text stands, and no string goes on behind it. -/
theorem op_of_next (hfresh : l.lookahead = none) (h : next l = .ok (some t) m) {o : Op}
    (hkind : t.kind = .op o) (hclose : o ≠ .closeInterpolation) :
    l.pending = none ∧ m.pending = none ∧ l.tokenStart.rest = o.text.toList ++ m.cursor.rest ∧
      m.cursor = l.tokenStart.advance o.text.toList.length := by
  obtain ⟨ahead, htoken, rfl, hstart⟩ := token_of_next hfresh h
  have hpending : l.pending = none := htoken.pending_of_ne_string (by rw [hkind]; exact nofun)
  have hbehind : m.pending = none := by
    apply pending_of_next h
    rw [hkind]
    exact fun hsame => hclose (TokenKind.op.inj hsame)
  have hwritten := htoken.writtenAs
  rw [hkind] at hwritten
  replace hwritten : m.cursor.textSince ahead.start = o.text.toList := hwritten
  have hrest := htoken.before.rest_eq
  obtain ⟨text, htext, hplace⟩ := htoken.before.exists_text
  rw [hwritten] at hrest
  rw [hrest] at htext
  rw [← List.append_cancel_right htext] at hplace
  rw [← hstart]
  exact ⟨hpending, hbehind, hrest, hplace⟩

/-- What the rules for lexemes find where the next token starts is consumed. -/
theorem next_of_at? (hfresh : l.lookahead = none) (hpending : l.pending = none) {x : Lexeme}
    (h : Lexeme.at? (0 < l.depth) l.tokenStart.rest = some x) :
    ∃ m, next l = .ok (some ⟨x.kind, l.tokenStart.location⟩) m := by
  have hend : l.tokenStart.atEnd = false := by
    rw [Cursor.atEnd, List.isEmpty_eq_false_iff]
    intro hrest
    rw [hrest, Lexeme.at?_nil] at h
    cases h
  rw [tokenStart_of_pending_none hpending] at h hend ⊢
  exact ⟨_, Rules.next_of_read hfresh (Rules.read_lexeme interpolation hpending hend h)⟩

/-! ### The opener of a comment -/

/-- The next two tokens are a division and, right behind its sign, a multiplication. -/
def OpensAsOperators (l : Lexer) : Prop :=
  ∃ t u n, Consumes l [t, u] n ∧ t.kind = .op .divide ∧ u.kind = .op .times ∧
    u.location.offset = t.location.offset + 1

theorem openComment_of_operators (hfresh : l.lookahead = none) (h : OpensAsOperators l) :
    l.pending = none ∧ Text.OpenComment l.tokenStart.rest := by
  obtain ⟨t, u, n, hconsumes, hdivide, htimes, hoffset⟩ := h
  cases hconsumes with
  | @cons _ m _ _ _ first others =>
    cases others with
    | cons second _ =>
      have hm := fresh_of_next first
      obtain ⟨hpending, hbehind, hslash, hplace⟩ := op_of_next hfresh first hdivide nofun
      obtain ⟨-, -, hstar, -⟩ := op_of_next hm second htimes nofun
      -- Nothing stands between the two signs.
      have hnext : m.cursor = m.tokenStart := by
        apply (before_tokenStart m).eq_of_offset_le
        rw [location_of_next hfresh first, location_of_next hm second] at hoffset
        have hlength : m.cursor.offset = l.tokenStart.offset + 1 := by
          rw [hplace, Cursor.offset_advance, hslash, List.take_left]
          rfl
        exact Nat.le_of_eq (hoffset.trans hlength.symm)
      rw [← hnext] at hstar
      rw [hstar] at hslash
      refine ⟨hpending, _, hslash, ?_⟩
      have htrivia := Cursor.trivia_rest_skip l.cursor
      rw [tokenStart_of_pending_none hpending] at hslash
      replace hslash : (l.cursor.skip Recognizer.trivia).rest = '/' :: '*' :: _ := hslash
      rw [hslash] at htrivia
      exact Recognizer.trivia_opener_eq_none_iff.mp htrivia

theorem operators_of_openComment (hfresh : l.lookahead = none) (hpending : l.pending = none)
    (h : Text.OpenComment l.tokenStart.rest) : OpensAsOperators l := by
  obtain ⟨v, hrest, -⟩ := h
  obtain ⟨m, first⟩ := next_of_at? hfresh hpending (by rw [hrest]; exact Lexeme.at?_divide _ v)
  have hm := fresh_of_next first
  obtain ⟨-, hbehind, hslash, hplace⟩ := op_of_next hfresh first rfl nofun
  have hstar : m.cursor.rest = '*' :: v := (List.cons.inj (hslash.symm.trans hrest)).2
  have hskip : m.tokenStart = m.cursor := by
    rw [tokenStart_of_pending_none hbehind, skipTrivia_eq]
    rw [hstar]
    exact Recognizer.trivia_eq_none (by decide) (by decide)
  obtain ⟨n, second⟩ := next_of_at? hm hbehind (by rw [hskip, hstar]; exact Lexeme.at?_times _ v)
  refine ⟨_, _, n, .cons first (.cons second (.nil n)), rfl, rfl, ?_⟩
  show m.tokenStart.offset = l.tokenStart.offset + 1
  rw [hskip, hplace, Cursor.offset_advance, hslash, List.take_left]
  rfl

/-! ### Tokens in view -/

/-- The token in view starts where the next token starts for the lexer that has put it back. -/
theorem Rereads.tokenStart_unconsume (h : l.Rereads) : l.unconsume.tokenStart = l.nextStart := by
  cases hview : l.lookahead with
  | none =>
    rw [unconsume_of_lookahead hview, nextStart, hview]
  | some ahead =>
    obtain ⟨m, hread, -⟩ := h ahead hview
    obtain ⟨-, hstart, -⟩ := (Rules.ends_read interpolation l.unconsume).of_ok hread
    rw [← hstart, nextStart, hview]

/-- Putting back the token in view does not change which tokens come next. -/
theorem Rereads.consumes_unconsume (h : l.Rereads) :
    (∃ n, Consumes l.unconsume ts n) ↔ ∃ n, Consumes l ts n := by
  cases hview : l.lookahead with
  | none =>
    rw [unconsume_of_lookahead hview]
  | some ahead =>
    obtain ⟨k, hnext, hbehind⟩ := h.next_unconsume hview
    have hfresh := fresh_of_next hnext
    have hback : k = (l.consume ahead).reworded k.expected := by rw [hbehind]; rfl
    constructor
    · rintro ⟨n, hconsumes⟩
      cases hconsumes with
      | nil => exact ⟨l, .nil l⟩
      | cons first others =>
        cases hnext.symm.trans first
        obtain ⟨wording, hothers⟩ := consumes_reworded hfresh others l.expected
        exact ⟨_, .cons (next_of_view hview) (hbehind ▸ hothers)⟩
    · rintro ⟨n, hconsumes⟩
      cases hconsumes with
      | nil => exact ⟨l.unconsume, .nil _⟩
      | cons first others =>
        cases (next_of_view hview).symm.trans first
        obtain ⟨wording, hothers⟩ := consumes_reworded (l := l.consume ahead) rfl others k.expected
        rw [← hback] at hothers
        exact ⟨_, .cons hnext hothers⟩

/-- **An unclosed comment is read as operators, and nothing else is.**  Take a lexer that any calls
led to. Its next two tokens are a division and, one byte further on, a multiplication exactly if no
string goes on here and the next token starts with a `/*` that no `*/` follows, however far away. -/
theorem operators_iff_openComment (c : Cursor) (options : Options) (calls : List Call) :
    (∃ t u n, Consumes ((ofCursor c options).after calls) [t, u] n ∧ t.kind = .op .divide ∧
        u.kind = .op .times ∧ u.location.offset = t.location.offset + 1) ↔
      ((ofCursor c options).after calls).pending = none ∧
        Text.OpenComment ((ofCursor c options).after calls).nextStart.rest := by
  have hfresh : (ofCursor c options).lookahead = none := rfl
  obtain ⟨_, hrun⟩ := run_after hfresh calls
  have hrereads := hrun.rereads hfresh
  have hsame : OpensAsOperators ((ofCursor c options).after calls) ↔
      OpensAsOperators ((ofCursor c options).after calls).unconsume := by
    constructor
    · rintro ⟨t, u, n, hconsumes, hkinds⟩
      obtain ⟨n', hconsumes'⟩ := hrereads.consumes_unconsume.mpr ⟨n, hconsumes⟩
      exact ⟨t, u, n', hconsumes', hkinds⟩
    · rintro ⟨t, u, n, hconsumes, hkinds⟩
      obtain ⟨n', hconsumes'⟩ := hrereads.consumes_unconsume.mp ⟨n, hconsumes⟩
      exact ⟨t, u, n', hconsumes', hkinds⟩
  refine hsame.trans ?_
  rw [← hrereads.tokenStart_unconsume]
  constructor
  · exact fun h => openComment_of_operators rfl h
  · rintro ⟨hpending, hopen⟩
    exact operators_of_openComment rfl hpending hopen

/-- A division and a multiplication behind a number, where a comment opens. -/
theorem operators_of_unclosed_comment :
    ∃ t u m, all (ofText "1 /* 2".toList 1 0 {}) =
      .ok [t, ⟨.op .divide, ⟨1, 2, 2⟩⟩, ⟨.op .times, ⟨1, 3, 3⟩⟩, u] m := by
  obtain ⟨ts, m, hall, htest⟩ := exists_of_answers
    (r := all (ofText "1 /* 2".toList 1 0 {}))
    (p := fun ts _ => decide (ts.length = 4 ∧
      (ts.drop 1).take 2 = [⟨.op .divide, ⟨1, 2, 2⟩⟩, ⟨.op .times, ⟨1, 3, 3⟩⟩])) (by decide +kernel)
  obtain ⟨hlength, hsigns⟩ := of_decide_eq_true htest
  match ts with
  | [t, divide, times, u] =>
    cases hsigns
    exact ⟨t, u, m, hall⟩

end Lexer
end Stylesheet
