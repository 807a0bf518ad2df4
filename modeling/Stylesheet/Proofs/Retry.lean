import Stylesheet.Proofs.Collecting

/-!
# Asking again after an error

A call that fails leaves the lexer somewhere, and the next call goes on from there.  Where none of
the rules fits, that is the place where the token would have started, so the same call fails in the
same way as often as it is made.  A special function that cannot be read to its end is the
exception: its beginning is passed before its body is looked at, and it stays passed
(`retry_of_failed`).
-/
namespace Stylesheet
namespace Lexer

/-- The calls that need the next token: one consumes it, the other only looks at it. -/
def demand (consuming : Bool) : LexM (Option Token) :=
  if consuming then next else peek

/-- The number of characters of the beginning of a special function, if the next token is to be read
as one. -/
def special? (l : Lexer) : Option Nat :=
  if l.pending.isSome || (Lexeme.at? (0 < l.depth) l.tokenStart.rest).isSome then none
  else Recognizer.specialHead l.tokenStart.rest

variable {l m : Lexer} {e : SyntaxError}

/-! ### Where an error leaves a lexer -/

/-- A special function fails behind its beginning, whatever is wrong with the rest of it. -/
theorem cursor_of_special_error {interpolation : LexM (List Token)} {head : Nat}
    (h : Rules.special interpolation head l = .error e m) :
    m = { l with cursor := l.cursor.advance head } := by
  rw [Rules.special_apply] at h
  split at h
  · cases h
    rfl
  · split at h
    · cases h
      rfl
    · cases h

/-- **Where a failed read leaves a lexer.**  It stands at the token that none of the rules fits, or
behind the beginning of a special function that does not go on well. -/
theorem cases_of_read_error {interpolation : LexM (List Token)}
    (h : Rules.read interpolation l = .error e m) :
    l.special? = none ∧ m = l.atToken ∨
      ∃ head, l.special? = some head ∧ m = { l with cursor := l.tokenStart.advance head } := by
  rw [Rules.read_apply] at h
  cases hpending : l.pending with
  | some q =>
    left
    have hspecial : l.special? = none := by
      rw [special?, hpending, Option.isSome_some, Bool.true_or, if_pos rfl]
    rw [hpending] at h
    simp only at h
    split at h
    · cases h
    · cases h
      exact ⟨hspecial, (atToken_of_pending hpending).symm⟩
  | none =>
    have hstart := tokenStart_of_pending_none hpending
    rw [hpending] at h
    simp only [Rules.token_apply, (moved_skipTrivia l).depth] at h
    split at h
    · cases h
    · cases hfound : Lexeme.at? (0 < l.depth) l.skipTrivia.cursor.rest with
      | some x =>
        rw [hfound] at h
        cases h
      | none =>
        have hspecial : l.special? = Recognizer.specialHead l.skipTrivia.cursor.rest := by
          rw [special?, hpending, hstart, hfound]
          rfl
        rw [hfound] at h
        simp only at h
        cases hhead : Recognizer.specialHead l.skipTrivia.cursor.rest with
        | none =>
          left
          rw [hhead] at h
          cases h
          exact ⟨hspecial.trans hhead, (atToken_of_pending_none hpending).symm⟩
        | some head =>
          -- The only rule that moves on before it is known to fit.
          right
          rw [hhead] at h
          simp only at h
          cases hrun : Rules.special interpolation head l.skipTrivia with
          | ok r k =>
            rw [hrun] at h
            cases h
          | error e' k =>
            rw [hrun] at h
            cases h
            refine ⟨head, hspecial.trans hhead, ?_⟩
            rw [cursor_of_special_error hrun, hstart]
            rfl

/-- Only a lexer with no token in view fails, and only because it has to read one. -/
theorem read_of_demand_error {consuming : Bool} (h : demand consuming l = .error e m) :
    l.lookahead = none ∧ Rules.read interpolation l = .error e m := by
  unfold demand next peek at h
  cases hview : l.lookahead with
  | some ahead =>
    cases consuming
    · simp only [Bool.false_eq_true, if_false, Rules.peek_apply, hview] at h
      cases h
    · simp only [if_true, Rules.next_apply, hview] at h
      cases h
  | none =>
    refine ⟨rfl, ?_⟩
    cases consuming
    · simp only [Bool.false_eq_true, if_false, Rules.peek_apply, hview] at h
      split at h
      · cases h
      · next hread =>
        cases h
        exact hread
    · simp only [if_true, Rules.next_apply, hview] at h
      split at h
      · cases h
      · cases h
      · next hread =>
        cases h
        exact hread

/-- A lexer that cannot read its next token gives it to no call. -/
theorem demand_of_read_error (hfresh : l.lookahead = none)
    (h : Rules.read interpolation l = .error e m) (consuming : Bool) :
    demand consuming l = .error e m := by
  unfold demand next peek
  cases consuming
  · simp only [Bool.false_eq_true, if_false, Rules.peek_apply, hfresh, h]
  · simp only [if_true, Rules.next_apply, hfresh, h]

/-- A token that is consumed starts at the place where the lexer stands, or further on. -/
theorem offset_le_of_next {t : Token} (hfresh : l.lookahead = none) (h : next l = .ok (some t) m) :
    l.cursor.offset ≤ t.location.offset := by
  unfold next at h
  rw [Rules.next_apply, hfresh] at h
  simp only at h
  split at h
  · next ahead k hread =>
    obtain ⟨-, hstart, htoken⟩ := (Rules.ends_read interpolation l).of_ok hread
    cases h
    rw [htoken.location, hstart]
    exact (before_tokenStart l).offset_le
  · cases h
  · cases h

/-- The beginning of a special function is not empty. -/
theorem offset_lt_of_special {head : Nat} (h : l.special? = some head) :
    l.tokenStart.offset < (l.tokenStart.advance head).offset := by
  unfold special? at h
  split at h
  · cases h
  · have hpos := Recognizer.positive_specialHead _ _ h
    have hbefore := Cursor.before_advance head l.tokenStart
    refine Nat.lt_of_not_le fun hle => ?_
    have hleft := congrArg Cursor.left (hbefore.eq_of_offset_le hle)
    have hrest : 0 < l.tokenStart.left := by
      rw [l.tokenStart.left_eq, List.length_pos_iff]
      intro hnil
      rw [hnil] at h
      cases h
    replace hleft : l.tokenStart.left = l.tokenStart.left - head := hleft
    omega

/-- **What comes of asking again.**  A call that fails leaves the lexer where the next token starts
exactly if no special function begins there.  Then every further call fails with the same error and
leaves the lexer as it is.  Behind the beginning of a special function the next call goes on, and a
token it gives is one from further on. -/
theorem retry_of_failed {first : Bool} (h : demand first l = .error e m) :
    (m.cursor = l.tokenStart ↔ l.special? = none) ∧
      (l.special? = none → ∀ again, demand again m = .error e m) ∧
      ∀ head, l.special? = some head → m = { l with cursor := l.tokenStart.advance head } ∧
        ∀ t n, next m = .ok (some t) n → l.tokenStart.offset < t.location.offset := by
  obtain ⟨hfresh, hread⟩ := read_of_demand_error h
  rcases cases_of_read_error hread with ⟨hnone, rfl⟩ | ⟨head, hsome, rfl⟩
  · have hagain : Rules.read interpolation l.atToken = .error e l.atToken := by
      rw [read_atToken, hread]
    refine ⟨⟨fun _ => hnone, fun _ => rfl⟩, fun _ => demand_of_read_error hfresh hagain, ?_⟩
    intro head hsome
    rw [hnone] at hsome
    cases hsome
  · have hlt := offset_lt_of_special hsome
    refine ⟨⟨fun hplace => ?_, fun hnone => ?_⟩, fun hnone => ?_, fun head' hsome' => ?_⟩
    · replace hplace : l.tokenStart.advance head = l.tokenStart := hplace
      rw [hplace] at hlt
      exact absurd hlt (Nat.lt_irrefl _)
    · rw [hsome] at hnone
      cases hnone
    · rw [hsome] at hnone
      cases hnone
    · cases hsome.symm.trans hsome'
      refine ⟨rfl, fun t n hnext => ?_⟩
      have hbehind : (l.tokenStart.advance head).offset ≤ t.location.offset :=
        offset_le_of_next (l := { l with cursor := l.tokenStart.advance head }) hfresh hnext
      exact Nat.lt_of_lt_of_le hlt hbehind

theorem retry_of_failed_at :
    ∃ e m, demand false (ofText "/* a */ @b".toList 1 0 {}) = .error e m ∧
      m.cursor.consumed = "/* a */ ".toList ∧ ∀ again, demand again m = .error e m := by
  obtain ⟨e, m, hfailed, htest⟩ := exists_of_fails
    (r := demand false (ofText "/* a */ @b".toList 1 0 {}))
    (p := fun _ m => decide (m.cursor.consumed = "/* a */ ".toList)) (by decide +kernel)
  have hspecial : (ofText "/* a */ @b".toList 1 0 {}).special? = none := by decide +kernel
  exact ⟨e, m, hfailed, of_decide_eq_true htest, (retry_of_failed hfailed).2.1 hspecial⟩

/-- A parenthesis that is never closed.  The first call says so, and the second gives the number
that stands behind the parenthesis. -/
theorem number_behind_failed_calc :
    ∃ e m t n, demand false (ofText "calc(1".toList 1 0 {}) = .error e m ∧
      next m = .ok (some t) n ∧ t.kind = .number (.ofDecimal false ['1'] []) none ∧
      t.location.offset = 5 := by
  obtain ⟨e, m, hfailed, htest⟩ := exists_of_fails
    (r := demand false (ofText "calc(1".toList 1 0 {}))
    (p := fun _ m => answers (next m) fun found _ =>
      decide (found.map Token.kind = some (.number (.ofDecimal false ['1'] []) none) ∧
        found.map (·.location.offset) = some 5)) (by decide +kernel)
  obtain ⟨found, n, hnext, hfound⟩ := exists_of_answers htest
  obtain ⟨hkind, hplace⟩ := of_decide_eq_true hfound
  obtain ⟨t, rfl, hnumber⟩ := Option.map_eq_some_iff.mp hkind
  exact ⟨e, m, t, n, hfailed, hnext, hnumber, Option.some.inj hplace⟩

end Lexer
end Stylesheet
