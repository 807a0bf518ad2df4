import Stylesheet.Proofs.Termination

/-!
# A name whose interpolation is left open

The name of a declaration is read piece by piece, and so is a selector.  If an interpolation in the
name is left open the attempt to read a declaration fails, and then the pieces before it are pieces
of a selector too, up to the same interpolation.  So there is no ruleset either
(`ruleset_of_openName`), as long as no parenthesis takes the text behind a pseudo-class whole.
-/
namespace Stylesheet
namespace Grammar

variable {s t v : State} {inner : Production Bool} {e : SyntaxError}

/-- From the state on, the text is the name of a declaration, perhaps with a sign before it, up to
an interpolation that is left open. -/
def OpenName (s : State) : Prop :=
  ∃ marked t e v, passes hack s = .ok marked t ∧ repeatWhile State.size namePiece t = .error e v

/-- What the text begins with does not depend on the fields of blocks and attempts. -/
theorem OpenName.reframe (h : OpenName s) (b : Option Nat) (k : List Nat) (r : Rollback) :
    OpenName (s.reframe b k r) := by
  obtain ⟨marked, t, e, v, hmark, hname⟩ := h
  have hmark' := ((plain_passes hack s (.refl s.cursor)).of_ok hmark).2 b k r
  have hname' := ((plain_repeatWhile plain_namePiece t (.refl t.cursor)).of_error hname).2 b k r
  exact ⟨marked, t.reframe b k r, e, v.reframe b k r, hmark', hname'⟩

/-! ### The interpolation left open -/

/-- Only an interpolation can fail in a name. -/
theorem namePiece_eq_error (h : namePiece s = .error e t) :
    ∃ u, s.cursor.rest = '#' :: '{' :: u ∧ interpolation s = .error e t := by
  have hidentifier : Recognizer.identifier s.cursor.rest = none := by
    cases hn : Recognizer.identifier s.cursor.rest with
    | none => rfl
    | some n => cases (show _ = _ from orM_of_true (passes_of_some hn)).symm.trans h
  have hopen : interpolation s = .error e t := (namePiece_of_none hidentifier).symm.trans h
  cases hn : Recognizer.literal ['#', '{'] s.cursor.rest with
  | none => cases (interpolation_of_none hn).symm.trans hopen
  | some n =>
    obtain ⟨⟨u, hu⟩, -⟩ := Recognizer.literal_eq_some.mp hn
    exact ⟨u, hu.symm, hopen⟩

theorem piece_of_open (h : namePiece s = .error e t) : Selector.piece inner s = .error e t := by
  obtain ⟨u, hrest, hopen⟩ := namePiece_eq_error h
  have hcolon : s.cursor.rest.head? ≠ some ':' := head_ne hrest (by decide)
  rw [piece_of_head (by rw [hrest]; rfl) (by rw [hrest]; rfl) (head_ne hrest (by decide))
      (head_ne hrest (by decide)) (head_ne hrest (by decide)) (head_ne hrest (by decide)),
    orM_of_false (negationPiece_of_none (notHead_eq_none hcolon)),
    orM_of_false (pseudoPiece_of_none hcolon), hopen]

/-- Behind a colon the interpolation is that of a pseudo-class. -/
theorem piece_of_mark_open {rest : Text} (hrest : s.cursor.rest = ':' :: rest)
    (h : namePiece { s with cursor := s.cursor.advance 1 } = .error e t) :
    Selector.piece inner s = .error e t := by
  obtain ⟨u, hbehind, -⟩ := namePiece_eq_error h
  rw [Cursor.rest_advance, hrest, List.drop_one, List.tail_cons] at hbehind
  have hmark : Selector.pseudoMark s.cursor.rest = some 1 := by
    rw [hrest, hbehind]
    rfl
  have hnot : Selector.notHead s.cursor.rest = none := by
    cases hn : Selector.notHead s.cursor.rest with
    | none => rfl
    | some n =>
      have hname := (identifier_of_notHead (hrest ▸ hn)).1
      rw [hbehind] at hname
      cases hname
  have hname' :
      (passes Recognizer.identifier <||> interpolation) { s with cursor := s.cursor.advance 1 } =
      .error e t := h
  have hpseudo : Selector.pseudoPiece s = .error e t := by
    unfold Selector.pseudoPiece here
    simp only [bind_apply, get_apply, pure_apply, passes_of_some hmark, if_true, hname']
  rw [piece_of_head (by rw [hrest]; rfl) (by rw [hrest]; rfl) (head_ne hrest (by decide))
      (head_ne hrest (by decide)) (head_ne hrest (by decide)) (head_ne hrest (by decide)),
    orM_of_false (negationPiece_of_none hnot)]
  show (Selector.pseudoPiece >>= _) s = _
  rw [bind_apply, hpseudo]

/-! ### The pieces before it -/

theorem pieces_of_open (h : repeatWhile State.size namePiece s = .error e v) :
    repeatWhile State.size (Selector.piece inner) s = .error e v := by
  have hloop := (progresses.propertyName.ends s _).mpr h
  generalize hr : (EStateM.Result.error e v : EStateM.Result SyntaxError State Unit) = r at hloop
  induction hloop with
  | stops round => cases hr
  | fails round =>
    cases hr
    rw [repeatWhile_apply, piece_of_open round]
  | goesOn round others ih =>
    have hothers := (progresses.propertyName.ends _ _).mp others
    rw [repeatWhile_apply, piece_of_namePiece round]
    exact (if_pos (progresses.propertyName.advances.size_lt round rfl)).trans (ih (hr ▸ hothers) hr)

/-- A name that fails does not begin with a sign. -/
theorem head_of_open (h : repeatWhile State.size namePiece t = .error e v) :
    ∀ x ∈ [':', '+', '>', '~', '(', '*'], t.cursor.rest.head? ≠ some x := by
  rw [repeatWhile_apply] at h
  cases hpiece : namePiece t with
  | error e' u =>
    obtain ⟨w, hrest, -⟩ := namePiece_eq_error hpiece
    intro x hx hhead
    rw [hrest, List.head?_cons] at hhead
    cases hhead
    revert hx
    decide
  | ok again u =>
    rw [hpiece] at h
    cases again with
    | false => cases h
    | true => exact head_of_namePiece hpiece

/-- The sign before the name is part of a selector too. -/
theorem OpenName.pieces (inner : Production Bool) (h : OpenName s) (hparen : '(' ∉ s.cursor.rest) :
    ∃ e v, repeatWhile State.size (Selector.piece inner) s = .error e v ∧
      Selector.combinator s.cursor.rest = none := by
  obtain ⟨marked, t, e, v, hmark, hname⟩ := h
  have hhead := head_of_open hname
  rw [passes_apply] at hmark
  cases hhack : hack s.cursor.rest with
  | none =>
    rw [hhack] at hmark
    cases hmark
    exact ⟨e, v, pieces_of_open hname,
      combinator_eq_none (hhead '+' (by decide)) (hhead '>' (by decide))
      (hhead '~' (by decide))⟩
  | some n =>
    rw [hhack] at hmark
    cases hmark
    obtain ⟨x, rest, hrest, hx, rfl⟩ := hack_eq_some hhack
    have hbehind : (s.cursor.advance 1).rest = rest := by rw [Cursor.rest_advance, hrest]; rfl
    have hsize : (s.cursor.advance 1).left < s.cursor.left := by
      have hleft := s.cursor.left_eq
      rw [hrest, List.length_cons] at hleft
      show s.cursor.left - 1 < s.cursor.left
      omega
    rcases hx with rfl | rfl
    · refine ⟨e, v, ?_, combinator_eq_none (head_ne hrest (by decide)) (head_ne hrest (by decide))
        (head_ne hrest (by decide))⟩
      rw [repeatWhile_apply, piece_of_star hrest]
      exact (if_pos hsize).trans (pieces_of_open hname)
    · refine ⟨e, v, ?_, combinator_eq_none (head_ne hrest (by decide)) (head_ne hrest (by decide))
        (head_ne hrest (by decide))⟩
      rw [repeatWhile_apply] at hname
      cases hpiece : namePiece { s with cursor := s.cursor.advance 1 } with
      | error e' u =>
        rw [hpiece] at hname
        cases hname
        rw [repeatWhile_apply, piece_of_mark_open hrest hpiece]
      | ok again u =>
        rw [hpiece] at hname
        cases again with
        | false => cases hname
        | true =>
          have hahead : (s.cursor.advance 1).Before u.cursor :=
            ((plain_namePiece _ (.refl _)).of_ok hpiece).1.ahead
          have hlt := progresses.propertyName.advances.size_lt hpiece rfl
          have hclosed : char '(' u.cursor.rest = none := by
            refine char_eq_none fun hopen => hparen ?_
            obtain ⟨w, hw, -⟩ := hahead.exists_text
            rw [hrest, ← hbehind, hw]
            exact List.mem_cons_of_mem _ (List.mem_append_right _ (List.mem_of_head? hopen))
          rw [repeatWhile_apply, piece_of_mark hrest (by rwa [hbehind] at hhead) hpiece hclosed]
          exact (if_pos (Nat.lt_trans hlt hsize)).trans
            (pieces_of_open ((if_pos hlt).symm.trans hname))

/-- **A name whose interpolation is left open begins no ruleset.** -/
theorem ruleset_of_openName (block : Production (List Node)) (h : OpenName s)
    (hparen : '(' ∉ s.cursor.rest) : ∃ e u, ruleset block s = .error e u := by
  obtain ⟨e, v, hpieces, hcombinator⟩ := h.pieces Selector.sequence hparen
  have hsequence : Selector.sequence s = .error e v := by
    rw [Selector.sequence_eq]
    unfold Selector.sequenceBy here
    simp only [bind_apply, get_apply, pure_apply, hpieces]
  have hgroup : Selector.group s = .error e v := by
    unfold Selector.group Selector.selector
    simp only [bind_apply, passes_of_none hcombinator, hsequence, Bool.false_eq_true, if_false]
  refine ⟨e, v, ?_⟩
  unfold ruleset Selector.groupText here
  simp only [bind_apply, get_apply, pure_apply, hgroup]

end Grammar
end Stylesheet
