import Stylesheet.Proofs.SeamProductions

/-!
# Selectors in front of a seam

Selectors that a text holds are read in the same way where the text goes on.  A selector that fails
in the text may still be found in the whole, if only an interpolation is closed there; for the
failure of a selector is always that of the statement it is in, so here every failure is a doom.

The pieces of a sequence end within the text.  Only a run of tokens goes past white space at the end
of it, so the text of a group of selectors may end with the newline, which is then trimmed.
-/
namespace Stylesheet

theorem Text.trim_newline (t : Text) : Text.trim (t ++ ['\n']) = Text.trim t := by
  unfold Text.trim
  rw [List.dropWhile_append]
  split
  · next hempty =>
    rw [List.isEmpty_iff.mp hempty]
    rfl
  · rw [List.reverse_append]
    rfl

namespace Seam

open Grammar Grammar.Selector

variable {S : Seam} {n : Nat} {doom : Prop} {K : Cursor → Cursor → Prop} {c d : Cursor}
  {s t : State} {inner : Production Bool}

/-! ### Pieces -/

/-- Where there are parentheses in the text, one that is open is closed within the text or
nowhere. -/
theorem steady_balancedLength (h : '(' ∈ S.text) : S.Steady Text.balancedLength? := by
  obtain ⟨hmark, hmore⟩ := mark_of_paren h
  exact {
    bounded := fun hn => (Text.closingParen?_take [] hn).2.1
    behind := fun _ => balancedLength_behind hmark hmore _
    nil := rfl
    mark := by rw [hmark, hmore]; rfl }

section
variable (hK : S.Tight n K)
include hK

theorem lasts_classPiece : S.Lasts True K K classPiece classPiece := by
  refine lasts_bind (lasts_passes hK steady_className) fun _ => ?_
  refine lasts_ite Iff.rfl (fun _ => lasts_pure (fun _ _ h => h) true) fun _ => ?_
  refine lasts_bind (lasts_sees hK (steady_literal (by decide) (by decide))) fun _ => ?_
  refine lasts_ite Iff.rfl (fun _ => ?_) fun _ => lasts_pure (fun _ _ h => h) false
  exact lasts_bind (lasts_passes hK (steady_char (by decide))) fun _ =>
    lasts_interpolation hK fun _ => trivial

/-- The sign that closes a piece. -/
theorem lasts_close {x : Char} (hx : x ∉ ['\n', ';', '\x7d']) {k : Nat} (hk : k ≤ n) :
    S.Lasts True (S.Place k) K (do expect x; return true) (do expect x; return true) :=
  lasts_bind (lasts_expect tight_place hx) fun _ =>
    lasts_pure (fun _ _ h => hK.level (h.mono (Nat.le_trans (Nat.sub_le _ _) hk))) true

theorem lasts_attributePiece : S.Lasts True K K attributePiece attributePiece := by
  have hP : S.Tight n (S.Place n) := tight_place
  have hclose := lasts_close hK (x := ']') (by decide) (Nat.le_refl n)
  refine lasts_bind (lasts_passes hK (steady_char (by decide))) fun _ => ?_
  refine lasts_ite Iff.rfl (fun _ => lasts_trivia hK ?_) fun _ => lasts_pure (fun _ _ h => h) false
  refine lasts_bind (lasts_namePiece hP fun _ => trivial) fun _ => lasts_check _ fun _ => ?_
  refine lasts_trivia hP (lasts_bind (lasts_passes hP steady_attributeOp) fun _ => ?_)
  refine lasts_ite Iff.rfl (fun _ => lasts_trivia hP ?_) fun _ => hclose
  refine lasts_bind (lasts_orM (lasts_passes hP (steady_identifier.orElse steady_quoted))
    (lasts_interpolation hP fun _ => trivial)) fun _ => lasts_check _ fun _ => ?_
  exact lasts_trivia hP hclose

/-- A negation holds a sequence that is shorter than itself. -/
theorem lasts_negationPiece (hinner : ∀ m < n, S.Lasts True (S.Place m) (S.Place m) inner inner) :
    S.Lasts True K K (negationPiece inner) (negationPiece inner) := by
  refine lasts_passes_if hK steady_notHead (fun u k _ hk hle => ?_)
    (lasts_pure (fun _ _ h => h) false)
  have hpos : 0 < k := (Recognizer.takes_caseless ':' "not(".toList u k hk).1
  refine lasts_trivia tight_level
    (lasts_bind (hinner (n - k) (by omega)) fun _ => lasts_check _ fun _ => ?_)
  exact lasts_trivia tight_place (lasts_close hK (by decide) (Nat.sub_le n k))

theorem lasts_pseudoPiece : S.Lasts True K K pseudoPiece pseudoPiece := by
  refine lasts_here_bind fun c d hplace =>
    lasts_bind (lasts_passes hK steady_pseudoMark) fun _ => ?_
  refine lasts_ite Iff.rfl (fun _ => ?_) fun _ => lasts_pure (fun _ _ h => h) false
  refine lasts_bind (lasts_namePiece hK fun _ => trivial) fun _ =>
    lasts_ite Iff.rfl (fun _ => ?_) fun _ => ?_
  · refine lasts_passes_if hK (steady_char (by decide)) (fun u k hu hk _ => ?_)
      (lasts_pure (fun _ _ h => h) true)
    obtain ⟨v, rfl, -⟩ := char_eq_some hk
    refine lasts_bind
      (lasts_passes tight_level (steady_balancedLength (hu.subset List.mem_cons_self))) fun _ => ?_
    exact lasts_check _ fun _ => lasts_pure (fun _ _ h => hK.level (h.mono (Nat.sub_le _ _))) true
  · exact lasts_bind (lasts_moveTo hplace) fun _ => lasts_pure (fun _ _ h => h) false

theorem lasts_piece (hinner : ∀ m < n, S.Lasts True (S.Place m) (S.Place m) inner inner) :
    S.Lasts True K K (piece inner) (piece inner) :=
  lasts_orM (lasts_passes hK steady_simple) <| lasts_orM (lasts_classPiece hK) <|
    lasts_orM (lasts_attributePiece hK) <| lasts_orM (lasts_negationPiece hK hinner) <|
      lasts_orM (lasts_pseudoPiece hK) (lasts_interpolation hK fun _ => trivial)

end

/-! ### Sequences -/

/-- A run of tokens ends at the mark, for a mark is an operator. -/
theorem lasts_run : S.Lasts doom (S.Place n) (S.Place n) run run := by
  intro s t hs
  have hstop : ∀ (b : Unit) (x : Token), x.kind = .op .semicolon ∨ x.kind = .op .closeBrace →
      (if x.isOperator then none else some b) = none := by
    intro _ x hx
    unfold Token.isOperator
    rcases hx with hx | hx <;> rw [hx] <;> rfl
  have htokens := lexed_collectUntil () hstop hs
  rw [run_apply, run_apply, Lexer.takeUntil]
  generalize lexing (Lexer.collectUntil _ ()) s = r,
    lexing (Lexer.collectUntil _ ()) t = r' at htokens ⊢
  cases htokens with
  | error e e' => exact .ok false hs
  | @ok ts l m u v ends same =>
    cases ts with
    | nil => exact .ok false hs
    | cons x ts => exact .ok true ends

theorem Level.offset_eq (h : S.Level n c d) : d.offset = c.offset := by
  rw [h.same, Cursor.offset_prolong]

/-- The place of a text that ends there is the end of the text, or the newline is behind it. -/
theorem Place.offset_le (h : S.Place n c d) : d.offset ≤ c.offset + 1 := by
  cases h with
  | level h => exact Nat.le_trans (Nat.le_of_eq h.offset_eq) (Nat.le_succ _)
  | past h =>
    rw [Cursor.offset_advance, Cursor.rest_prolong, h]
    exact Nat.le_refl _

theorem offset_past (h : c.rest = []) : ((c.prolong S.behind).advance 1).offset = c.offset + 1 := by
  rw [Cursor.offset_advance, Cursor.rest_prolong, h]
  rfl

theorem Place.level_or_past (h : S.Place n c d) :
    S.Level n c d ∨ c.rest = [] ∧ d = (c.prolong S.behind).advance 1 := by
  cases h with
  | level h => exact .inl h
  | past h => exact .inr ⟨h, rfl⟩

/-- From the end of a text nothing goes on. -/
theorem offset_of_end (h : c.Before d) (hend : c.rest = []) : d.offset = c.offset := by
  obtain ⟨k, rfl⟩ := h
  rw [Cursor.offset_advance, hend, List.take_nil]
  rfl

theorem lasts_sequenceBy
    (hinner : ∀ m < n, S.Lasts True (S.Place m) (S.Place m) sequence sequence) :
    S.Lasts True (S.Place n) (S.Place n) (sequenceBy sequence) (sequenceBy sequence) := by
  intro s t hs
  rcases hs.cursor.level_or_past with hlevel | ⟨hend, hpast⟩
  · -- The pieces end within the text, so the two loops have come equally far.
    have hstart : S.Beside (S.Level n) s t := { hs with cursor := hlevel }
    refine (lasts_here_bind fun c d hlevel => ?_ :
      S.Lasts True (S.Level n) (S.Place n) _ _) s t hstart
    refine lasts_bind (lasts_repeatWhile progresses.sequence.ends (lasts_piece tight_level hinner))
      fun _ => ?_
    refine lasts_here_bind fun c' d' hlevel' => lasts_ite ?_ (fun _ => ?_) fun _ => ?_
    · rw [hlevel.offset_eq, hlevel'.offset_eq]
    · exact lasts_pure (fun _ _ h => .level h) true
    · exact fun u v h => lasts_run u v (h.mono fun _ _ h => .level h)
  · -- At the end of the text there are no pieces, and none before the mark.
    have hpieces :=
      lasts_repeatWhile progresses.sequence.ends (lasts_piece (S := S) tight_place hinner) s t hs
    have hplain := plain_repeatWhile (plain_piece plain_sequence) s (Cursor.Before.refl s.cursor)
    unfold sequenceBy
    simp only [here, bind_apply, get_apply, pure_apply]
    generalize hr : repeatWhile State.size (piece sequence) s = r,
      repeatWhile State.size (piece sequence) t = r' at hpieces ⊢
    cases hpieces with
    | error e e' ends => exact .error e e' ends
    | doomed e u _ _ => exact .doomed e u _ trivial
    | @ok _ u v ends =>
      have hoffset : u.cursor.offset = s.cursor.offset :=
        offset_of_end (hplain.of_ok hr).1.ahead hend
      have hbound := ends.cursor.offset_le
      have hstart : t.cursor.offset = s.cursor.offset + 1 := by rw [hpast, offset_past hend]
      dsimp only
      rw [if_neg (by omega), if_neg (by omega)]
      exact lasts_run u v ends

theorem lasts_sequence : S.Lasts True (S.Place n) (S.Place n) sequence sequence := by
  induction n using Nat.strongRecOn with
  | ind n ih =>
    rw [sequence_eq]
    exact lasts_sequenceBy ih

/-! ### Groups of selectors -/

theorem lasts_continuation : S.Lasts True (S.Place n) (S.Place n) continuation continuation := by
  have hP : S.Tight n (S.Place n) := tight_place
  refine lasts_here_bind fun c d hplace => lasts_trivia hP ?_
  refine lasts_bind (lasts_passes hP steady_combinator) fun _ => lasts_trivia hP ?_
  refine lasts_bind lasts_sequence fun _ =>
    lasts_ite Iff.rfl (fun _ => lasts_pure (fun _ _ h => h) true) fun _ => ?_
  refine lasts_ite Iff.rfl (fun _ => lasts_fail _) fun _ => ?_
  exact lasts_bind (lasts_moveTo hplace) fun _ => lasts_pure (fun _ _ h => h) false

theorem lasts_selector : S.Lasts True (S.Place n) (S.Place n) selector selector := by
  have hP : S.Tight n (S.Place n) := tight_place
  have hrest : S.Lasts True (S.Place n) (S.Place n) (do
      unless ← sequence do
        fail "selector"
      repeatWhile State.size continuation) (do
      unless ← sequence do
        fail "selector"
      repeatWhile State.size continuation) :=
    lasts_bind lasts_sequence fun _ =>
      lasts_check _ fun _ => lasts_repeatWhile progresses.selector.ends lasts_continuation
  refine lasts_bind (lasts_passes hP steady_combinator) fun _ => ?_
  exact lasts_ite Iff.rfl (fun _ => lasts_trivia hP hrest) fun _ => hrest

theorem lasts_alternative : S.Lasts True (S.Place n) (S.Place n) alternative alternative := by
  have hP : S.Tight n (S.Place n) := tight_place
  refine lasts_here_bind fun c d hplace => lasts_trivia hP ?_
  refine lasts_bind (lasts_passes hP (steady_char (by decide))) fun _ =>
    lasts_ite Iff.rfl (fun _ => ?_) fun _ => ?_
  · exact lasts_trivia hP (lasts_bind lasts_selector fun _ => lasts_pure (fun _ _ h => h) true)
  · exact lasts_bind (lasts_moveTo hplace) fun _ => lasts_pure (fun _ _ h => h) false

theorem lasts_group : S.Lasts True (S.Place n) (S.Place n) group group :=
  lasts_bind lasts_selector fun _ => lasts_repeatWhile progresses.group.ends lasts_alternative

/-- Up to right before the mark there is also the newline. -/
theorem textSince_past (h : c.Before d) (hend : d.rest = []) :
    ((d.prolong S.behind).advance 1).textSince (c.prolong S.behind) = d.textSince c ++ ['\n'] := by
  obtain ⟨t, ht, rfl⟩ := h.exists_text
  rw [hend, List.append_nil] at ht
  rw [← Cursor.advance_prolong (Nat.le_of_eq (by rw [ht])), Cursor.advance_advance,
    Cursor.textSince_advance, Cursor.textSince_advance, Cursor.rest_prolong, ht, List.take_length,
    List.take_length_add_append]
  rfl

theorem lasts_groupText : S.Lasts True (S.Level n) (S.Place n) groupText groupText := by
  intro s t hs
  have hgroup := lasts_group s t (hs.mono fun _ _ h => .level h)
  have hplain := plain_bind plain_selector (fun _ => plain_repeatWhile plain_alternative) s
    (Cursor.Before.refl s.cursor)
  unfold groupText
  simp only [here, bind_apply, get_apply, pure_apply]
  generalize hr : group s = r, group t = r' at hgroup ⊢
  cases hgroup with
  | error e e' ends => exact .error e e' ends
  | doomed e u _ _ => exact .doomed e u _ trivial
  | @ok _ u v ends =>
    have hbefore : s.cursor.Before u.cursor := (hplain.of_ok hr).1.ahead
    have htext : (v.cursor.textSince t.cursor).trim = (u.cursor.textSince s.cursor).trim := by
      rcases ends.cursor.level_or_past with hlevel | ⟨hend, hpast⟩
      · rw [hlevel.same, hs.cursor.same, Cursor.textSince_prolong]
      · rw [hpast, hs.cursor.same, textSince_past hbefore hend, Text.trim_newline]
    dsimp only
    rw [htext]
    exact .ok _ ends

end Seam
end Stylesheet
