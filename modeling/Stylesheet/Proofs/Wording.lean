import Stylesheet.Proofs.FreshStart
import Stylesheet.Proofs.Retry

/-!
# What a lexer is told to expect

A caller may say what it expects next, for the wording of an error in the next token.  Nothing but
an error looks at that wording, so a token is the same with it and without (`ends_read_reworded`).
A token that is read by the rules takes the wording away again, and what the lexer does from then on
is what it would have done anyway.  The segment of a string that goes on behind an interpolation
leaves the wording where it is: from there on the lexer is one that is told so only behind the
segment (`replies_of_expect`).
-/
namespace Stylesheet
namespace Lexer

/-- A lexer with another wording pending, or with none. -/
def reworded (l : Lexer) (wording : Option String) : Lexer :=
  { l with expected := wording }

section
variable (l : Lexer) (wording : Option String)

@[simp] theorem cursor_reworded : (l.reworded wording).cursor = l.cursor := rfl

@[simp] theorem options_reworded : (l.reworded wording).options = l.options := rfl

@[simp] theorem pending_reworded : (l.reworded wording).pending = l.pending := rfl

@[simp] theorem depth_reworded : (l.reworded wording).depth = l.depth := rfl

@[simp] theorem skipTrivia_reworded :
    (l.reworded wording).skipTrivia = l.skipTrivia.reworded wording := rfl

theorem reworded_expected : l.reworded l.expected = l := rfl

theorem note_reworded (t : Token) : (l.reworded wording).note t = (l.note t).reworded wording := by
  unfold note pop warn push reworded
  dsimp only
  split
  · split <;> rfl
  · split <;> rfl
  · split <;> rfl
  · rfl

theorem consume_reworded (ahead : Lookahead) :
    (l.reworded wording).consume ahead = (l.consume ahead).reworded wording := by
  unfold consume
  rw [note_reworded]
  cases ahead.opens <;> rfl

end

variable {interpolation : LexM (List Token)} {l m : Lexer} {ahead : Lookahead} {t : Token}

/-! ### The wording in a read -/

/-- A special function is read without a look at the wording, whether it can be read or not. -/
theorem special_reworded (head : Nat) (l : Lexer) (wording : Option String) :
    Rules.special interpolation head (l.reworded wording) =
      match Rules.special interpolation head l with
      | .ok r m => .ok r (m.reworded wording)
      | .error e m => .error e (m.reworded wording) := by
  rw [Rules.special_apply, Rules.special_apply, cursor_reworded, options_reworded]
  cases (l.cursor.advance head).rest.balancedLength? with
  | none => rfl
  | some n =>
    simp only
    cases Rules.pieces interpolation ((l.cursor.advance head).advance n)
      (ofCursor (l.cursor.advance head) l.options) <;> rfl

theorem token_reworded (wording : Option String) (h : Rules.token interpolation l = .ok ahead m) :
    Rules.token interpolation (l.reworded wording) = .ok ahead (m.reworded wording) := by
  rw [Rules.token_apply] at h ⊢
  rw [depth_reworded, cursor_reworded]
  split at h
  · cases h
    rfl
  · split at h
    · cases h
    · next head _ =>
      cases hrun : Rules.special interpolation head l with
      | error e k =>
        rw [hrun] at h
        cases h
      | ok r k =>
        rw [hrun] at h
        cases h
        simp only [special_reworded, hrun]

/-- **What is read does not depend on the wording.**  By the rules for tokens it is taken away with
the token; the segment of a string that goes on keeps it. -/
theorem ends_read_reworded (l : Lexer) (wording : Option String) :
    Ends (Rules.read interpolation) l
      (fun found m => Rules.read interpolation (l.reworded wording) =
        .ok found (if found.isSome && l.pending.isNone then m else m.reworded wording))
      (fun _ _ => True) := by
  unfold Ends
  split
  · next found m h =>
    rw [Rules.read_apply] at h ⊢
    rw [pending_reworded, cursor_reworded, skipTrivia_reworded, cursor_reworded]
    split at h
    · next q hresume =>
      split at h
      · cases h
        rw [hresume]
        rfl
      · cases h
    · next hresume =>
      split at h
      · next hend =>
        cases h
        simp only [hend, if_true]
        rfl
      · next hend =>
        cases htoken : Rules.token interpolation l.skipTrivia with
        | error e k =>
          rw [htoken] at h
          cases h
        | ok found k =>
          rw [htoken] at h
          cases h
          simp only [if_neg hend, token_reworded wording htoken]
          rw [hresume]
          rfl
  · trivial

theorem wording_of_read {found : Option Lookahead} (h : Rules.read interpolation l = .ok found m) :
    m.expected = if found.isSome && l.pending.isNone then none else l.expected := by
  rw [Rules.read_apply] at h
  split at h
  · next q hresume =>
    rw [hresume]
    split at h
    · cases h
      rfl
    · cases h
  · next hresume =>
    rw [hresume]
    split at h
    · cases h
      rfl
    · split at h
      · cases h
        rfl
      · cases h

/-- A token that is consumed is the same with the wording and without. -/
theorem next_reworded (hview : l.lookahead = none) (wording : Option String)
    (h : next l = .ok (some t) m) :
    next (l.reworded wording) =
        .ok (some t) (if l.pending.isNone then m else m.reworded wording) ∧
      m.expected = if l.pending.isNone then none else l.expected := by
  unfold next at h ⊢
  rw [Rules.next_apply, hview] at h
  rw [Rules.next_apply, show (l.reworded wording).lookahead = none from hview]
  simp only at h ⊢
  split at h
  · next ahead k hread =>
    cases h
    have hsame := (ends_read_reworded l wording).of_ok hread
    have hexpected := wording_of_read hread
    rw [Option.isSome_some, Bool.true_and] at hsame hexpected
    rw [hsame]
    have hkept : (k.consume ahead).expected = k.expected := by
      have := congrArg Lexer.expected (consume_reworded k k.expected ahead)
      rwa [reworded_expected] at this
    refine ⟨?_, hkept.trans hexpected⟩
    simp only
    split
    · rfl
    · rw [consume_reworded]
  · cases h
  · cases h

/-! ### The wording in an error -/

/-- Where no special function begins, an error in the next token shows the wording that is
pending. -/
theorem failure_of_read_error {e : SyntaxError} (hspecial : l.special? = none)
    (h : Rules.read interpolation l = .error e m) :
    m = l.atToken ∧ e = m.cursor.unexpected (l.expected.getD "expression") := by
  rcases cases_of_read_error h with ⟨-, rfl⟩ | ⟨head, hsome, -⟩
  · refine ⟨rfl, ?_⟩
    -- A lexer that is at its token already fails there and then.
    rw [← read_atToken, Rules.read_apply] at h
    split at h
    · split at h
      · cases h
      · cases h
        rfl
    · next hpending =>
      have hskip : l.atToken.skipTrivia = l.atToken := by
        rw [← atToken_of_pending_none hpending, atToken_atToken]
      have hstart : l.tokenStart = l.atToken.cursor := rfl
      rw [special?, show l.pending = none from hpending, hstart] at hspecial
      rw [hskip, Rules.token_apply] at h
      split at h
      · cases h
      · cases hfound : Lexeme.at? (0 < l.atToken.depth) l.atToken.cursor.rest with
        | some x =>
          rw [hfound] at h
          cases h
        | none =>
          have hnone : Recognizer.specialHead l.atToken.cursor.rest = none := by
            rwa [show Lexeme.at? (0 < l.depth) l.atToken.cursor.rest = none from hfound] at hspecial
          rw [hfound] at h
          simp only [hnone] at h
          cases h
          rfl
  · rw [hspecial] at hsome
    cases hsome

/-- A lexer whose next token cannot be read says so in the words that are pending. -/
theorem next_of_failed {e : SyntaxError} (hview : l.lookahead = none) (hspecial : l.special? = none)
    (h : next l = .error e m) (description : String) :
    e = m.cursor.unexpected (l.expected.getD "expression") ∧
      ∃ n, next (l.expect description) = .error (m.cursor.unexpected description) n := by
  have hdemand : demand true l = .error e m := h
  obtain ⟨-, hread⟩ := read_of_demand_error hdemand
  obtain ⟨rfl, he⟩ := failure_of_read_error hspecial hread
  refine ⟨he, ?_⟩
  cases hagain : Rules.read Lexer.interpolation (l.expect description) with
  | ok found k =>
    -- What can be read in these words can be read in the others.
    have hsame := (ends_read_reworded (l.expect description) l.expected).of_ok hagain
    have hl : (l.expect description).reworded l.expected = l := rfl
    rw [hl, hread] at hsame
    cases hsame
  | error e' k =>
    obtain ⟨rfl, rfl⟩ := failure_of_read_error (l := l.expect description) hspecial hagain
    exact ⟨_, demand_of_read_error (l := l.expect description) hview hagain true⟩

/-- **A wording is for the next token, unless that goes on with a string.**  Where a lexer is told
what to expect and then gives a token, it gives the same token without having been told.  If no
string goes on there, the two lexers are the same from then on, so whatever is asked of them they
answer alike.  If a string goes on, the one that was told is as the other one would be if it were
told only now, and an error in the token behind the segment is worded accordingly. -/
theorem replies_of_expect {l₁ : Lexer} {description : String} (hview : l.lookahead = none)
    (hexpected : l.expected = none) (h : next (l.expect description) = .ok (some t) l₁) :
    ∃ l₀, next l = .ok (some t) l₀ ∧
      (l.pending = none → ∀ (calls : List Call) (call : Call),
        call.reply (l₁.after calls) = call.reply (l₀.after calls)) ∧
      (l.pending ≠ none → l₁ = l₀.expect description ∧
        ∀ e m, next l₀ = .error e m → l₀.special? = none → e = m.cursor.unexpected "expression" ∧
          ∃ n, next l₁ = .error (m.cursor.unexpected description) n) := by
  have hl : (l.expect description).reworded none = l := by
    rw [← hexpected]
    rfl
  obtain ⟨hsame, hwording⟩ := next_reworded (l := l.expect description) hview none h
  rw [hl] at hsame
  have hpending : (l.expect description).pending = l.pending := rfl
  rw [hpending] at hsame hwording
  refine ⟨_, hsame, fun hnone calls call => ?_, fun hsome => ?_⟩
  · rw [hnone, Option.isNone_none, if_pos rfl]
  · have hisNone : l.pending.isNone = false := by
      rw [← Bool.not_eq_true, Option.isNone_iff_eq_none]
      exact hsome
    rw [hisNone, if_neg Bool.false_ne_true] at hwording
    rw [hisNone, if_neg Bool.false_ne_true]
    have htold : l₁ = (l₁.reworded none).expect description := by
      conv_lhs => rw [← reworded_expected l₁, hwording]
      rfl
    refine ⟨htold, fun e m herror hspecial => ?_⟩
    have hfresh : l₁.lookahead = none := fresh_of_next h
    rw [htold]
    exact next_of_failed (l := l₁.reworded none) hfresh hspecial herror description

/-- A wording in front of a name, which is gone behind it. -/
theorem replies_of_expect_name :
    let l := ofText "a ~".toList 1 0 {}
    l.lookahead = none ∧ l.expected = none ∧ ∃ t l₁ l₀,
      next (l.expect "name") = .ok (some t) l₁ ∧ next l = .ok (some t) l₀ ∧
        Call.next.reply (l₁.after [.peek]) = Call.next.reply (l₀.after [.peek]) := by
  intro l
  refine ⟨rfl, rfl, ?_⟩
  obtain ⟨found, l₁, hnext, htoken⟩ := exists_of_answers
    (r := next (l.expect "name")) (p := fun found _ => found.isSome) (by decide +kernel)
  obtain ⟨t, rfl⟩ := Option.isSome_iff_exists.mp htoken
  obtain ⟨l₀, hfirst, hsame, -⟩ := replies_of_expect (l := l) rfl rfl hnext
  exact ⟨t, l₁, l₀, hnext, hfirst, hsame rfl [.peek] .next⟩

/-- A wording in front of the end of a string, which is still there for the token behind the
string. -/
theorem wording_behind_segment :
    let l := (ofText "\"a#\x7bb\x7dc\" ~".toList 1 0 {}).after [.next, .next, .next, .next]
    l.lookahead.isNone = true ∧ l.expected = none ∧ ∃ t l₁ l₀ e₁ e₀ m₁ m₀,
      next (l.expect "name") = .ok (some t) l₁ ∧ next l = .ok (some t) l₀ ∧
        next l₁ = .error e₁ m₁ ∧ next l₀ = .error e₀ m₀ ∧ e₁.message ≠ e₀.message := by
  intro l
  have hidle : l.lookahead.isNone = true ∧ l.expected = none := by decide +kernel
  obtain ⟨found, l₁, hnext, htest⟩ := exists_of_answers
    (r := next (l.expect "name"))
    (p := fun found l₁ => found.isSome &&
      fails (next l₁) fun e₁ _ => answers (next l) fun found₀ l₀ =>
        decide (found₀ = found) && fails (next l₀) fun e₀ _ => decide (e₁.message ≠ e₀.message))
    (by decide +kernel)
  obtain ⟨hsome, hfailed⟩ := Bool.and_eq_true_iff.mp htest
  obtain ⟨e₁, m₁, herror, hothers⟩ := exists_of_fails hfailed
  obtain ⟨found₀, l₀, hnext₀, hlast⟩ := exists_of_answers hothers
  obtain ⟨hsame, hfailed₀⟩ := Bool.and_eq_true_iff.mp hlast
  obtain ⟨e₀, m₀, herror₀, hne⟩ := exists_of_fails hfailed₀
  obtain ⟨t, rfl⟩ := Option.isSome_iff_exists.mp hsome
  rw [of_decide_eq_true hsame] at hnext₀
  exact ⟨hidle.1, hidle.2, t, l₁, l₀, e₁, e₀, m₁, m₀, hnext, hnext₀, herror, herror₀,
    of_decide_eq_true hne⟩

end Lexer
end Stylesheet
