import Stylesheet.Proofs.SeamStatements

/-!
# Lists of statements in front of a seam

A round of a list of statements in the text has the same answer in the whole.  Where the text ends
within the round, or with it, the whole may go past a semicolon that the text does not have
(`Seam.Goes`).  So a block in the text is the same block in the whole (`Seam.lasts_block`).  The
list of all statements of the text is the list of a block that the mark closes, or the front of a
list that goes on behind the mark (`Seam.statements_behind`).
-/
namespace Stylesheet

theorem foundBefore_append {ε σ α : Type} (found more : List α) (r : EStateM.Result ε σ (List α)) :
    foundBefore found (foundBefore more r) = foundBefore (found ++ more) r := by
  cases r with
  | ok others s => exact congrArg (EStateM.Result.ok · s) (List.append_assoc found more others).symm
  | error e s => rfl

namespace Grammar

variable {s t u : State} {nested : Bool}

/-! ### The parts of a round -/

/-- What separates a statement from the one after, if it does not end in a block. -/
def separated (nested : Bool) (node : Node) : Production (List Node × Option Unit) := do
  let _ ← skipTrivia
  unless ← passes (char ';') <||> listEnds nested do
    fail "\";\""
  return ([node], some ())

/-- The end of a statement. -/
def statementEnd (nested : Bool) (node : Node) : Production (List Node × Option Unit) := do
  if (← get).atBlockEnd then
    return ([node], some ())
  separated nested node

/-- A comment or another statement of a list. -/
def listItem (nested : Bool) : Production (List Node × Option Unit) := do
  if let some node ← comment then
    return ([node], some ())
  let node ← statement block
  statementEnd nested node

/-- A round of a list, behind white space. -/
def listRound (nested : Bool) : Production (List Node × Option Unit) := do
  if ← listEnds nested then
    return ([], none)
  if ← passes (char ';') then
    return ([], some ())
  listItem nested

theorem statementEnd_apply (nested : Bool) (node : Node) (s : State) :
    statementEnd nested node s =
      if s.atBlockEnd then .ok ([node], some ()) s else separated nested node s := by
  unfold statementEnd
  rw [bind_apply, get_apply]
  dsimp only
  split <;> rfl

theorem passes_eq_skip (form : Recognizer) (s : State) :
    passes form s = .ok (form s.cursor.rest).isSome { s with cursor := s.cursor.skip form } := by
  rw [passes_apply]
  cases hn : form s.cursor.rest with
  | none => rw [Cursor.skip_of_none hn]; rfl
  | some n => rw [Cursor.skip_of_some hn]; rfl

theorem listStep_apply (nested : Bool) (s : State) :
    listStep block nested s =
      listRound nested { s with cursor := s.cursor.skip Recognizer.blanks } := by
  unfold listStep
  rw [bind_apply, passes_eq_skip]
  rfl

theorem listEnds_apply (nested : Bool) (s : State) :
    listEnds nested s = .ok (s.cursor.atEnd || nested && s.cursor.sees (char '\x7d')) s := rfl

theorem listRound_of_end (h : (s.cursor.atEnd || nested && s.cursor.sees (char '\x7d')) = true) :
    listRound nested s = .ok ([], none) s := by
  unfold listRound
  rw [bind_apply, listEnds_apply, h]
  rfl

theorem listStep_of_end (hend : s.cursor.rest = []) :
    listStep block nested s = .ok ([], none) s := by
  rw [listStep_apply, Cursor.skip_of_none (by rw [hend]; rfl)]
  exact listRound_of_end (by rw [Cursor.atEnd, hend]; rfl)

theorem listRound_of_semicolon {w : Text} (h : s.cursor.rest = ';' :: w) :
    listRound nested s = .ok ([], some ()) { s with cursor := s.cursor.advance 1 } := by
  have hends : (s.cursor.atEnd || nested && s.cursor.sees (char '\x7d')) = false := by
    rw [Cursor.atEnd, Cursor.sees, h]
    exact Bool.and_false nested
  have hpass : passes (char ';') s = .ok true { s with cursor := s.cursor.advance 1 } :=
    passes_of_some (by rw [h]; rfl)
  unfold listRound
  rw [bind_apply, listEnds_apply, hends]
  simp only [Bool.false_eq_true, if_false, bind_apply, hpass, if_true]
  rfl

theorem listRound_of_item
    (hends : (s.cursor.atEnd || nested && s.cursor.sees (char '\x7d')) = false)
    (h : s.cursor.rest.head? ≠ some ';') : listRound nested s = listItem nested s := by
  unfold listRound
  rw [bind_apply, listEnds_apply, hends]
  simp only [Bool.false_eq_true, if_false, bind_apply, passes_of_none (char_eq_none h)]

theorem separated_of_end {node : Node} (h : ((s.cursor.skip Recognizer.trivia).atEnd ||
    nested && (s.cursor.skip Recognizer.trivia).sees (char '\x7d')) = true) :
    separated nested node s = .ok ([node], some ())
    { s with cursor := s.cursor.skip Recognizer.trivia } := by
  have hpass : passes (char ';') { s with cursor := s.cursor.skip Recognizer.trivia } =
      .ok false { s with cursor := s.cursor.skip Recognizer.trivia } := by
    refine passes_of_none (char_eq_none fun hhead => ?_)
    obtain ⟨w, hw⟩ := List.head?_eq_some_iff.mp hhead
    rw [Cursor.atEnd, Cursor.sees, hw] at h
    cases nested <;> cases h
  unfold separated
  rw [bind_apply, skipTrivia_apply]
  simp only [bind_apply, orM_of_false hpass, listEnds_apply, h, if_true]
  rfl

theorem separated_of_semicolon {node : Node} {w : Text}
    (h : (s.cursor.skip Recognizer.trivia).rest = ';' :: w) :
    separated nested node s =
      .ok ([node], some ()) { s with cursor := (s.cursor.skip Recognizer.trivia).advance 1 } := by
  have hpass : passes (char ';') { s with cursor := s.cursor.skip Recognizer.trivia } =
      .ok true { s with cursor := (s.cursor.skip Recognizer.trivia).advance 1 } :=
    passes_of_some (by rw [h]; rfl)
  unfold separated
  rw [bind_apply, skipTrivia_apply]
  simp only [bind_apply, orM_of_true hpass, if_true]
  rfl

/-- What follows a statement is a semicolon or the end of the list. -/
theorem separated_eq_ok {node : Node} {r : List Node × Option Unit}
    (h : separated nested node s = .ok r u) :
    r = ([node], some ()) ∧
      ((∃ w, (s.cursor.skip Recognizer.trivia).rest = ';' :: w ∧
        u = { s with cursor := (s.cursor.skip Recognizer.trivia).advance 1 }) ∨
      ((s.cursor.skip Recognizer.trivia).atEnd ||
          nested && (s.cursor.skip Recognizer.trivia).sees (char '\x7d')) = true ∧
        u = { s with cursor := s.cursor.skip Recognizer.trivia }) := by
  by_cases hsemicolon : ∃ w, (s.cursor.skip Recognizer.trivia).rest = ';' :: w
  · obtain ⟨w, hw⟩ := hsemicolon
    cases (separated_of_semicolon hw).symm.trans h
    exact ⟨rfl, .inl ⟨w, hw, rfl⟩⟩
  · cases hends : (s.cursor.skip Recognizer.trivia).atEnd ||
        nested && (s.cursor.skip Recognizer.trivia).sees (char '\x7d') with
    | true =>
      cases (separated_of_end hends).symm.trans h
      exact ⟨rfl, .inr ⟨rfl, rfl⟩⟩
    | false =>
      have hpass : passes (char ';') { s with cursor := s.cursor.skip Recognizer.trivia } =
          .ok false { s with cursor := s.cursor.skip Recognizer.trivia } :=
        passes_of_none (char_eq_none fun hhead => hsemicolon (List.head?_eq_some_iff.mp hhead))
      unfold separated at h
      rw [bind_apply, skipTrivia_apply] at h
      simp only [bind_apply, orM_of_false hpass, listEnds_apply, hends, Bool.false_eq_true,
        if_false] at h
      cases h

/-! ### A closing brace begins no statement -/

theorem declaration_of_brace {w : Text} (h : s.cursor.rest = '\x7d' :: w) :
    ∃ e, declaration block s = .error e s := by
  have hpiece : namePiece s = .ok false s :=
    (namePiece_of_none (by rw [h]; rfl)).trans (interpolation_of_none (by rw [h]; rfl))
  have hname : propertyName s = .error (s.cursor.unexpected "identifier") s := by
    unfold propertyName here
    simp only [bind_apply, get_apply, pure_apply, repeatWhile_apply, hpiece,
      Nat.lt_irrefl, if_false]
    rfl
  have hmarked : during false (passes hack) s = .ok false s :=
    during_of_ok _ (passes_of_none (by rw [h]; rfl))
  have hstart : here s = .ok s.cursor s := rfl
  unfold declaration
  simp only [bind_apply, during_of_ok false hstart, hmarked]
  unfold during
  simp only [bind_apply, hname]
  exact ⟨_, rfl⟩

theorem statement_of_brace {w : Text} (h : s.cursor.rest = '\x7d' :: w) :
    ∃ e u, statement block s = .error e u := by
  obtain ⟨rejected, hdeclaration⟩ := declaration_of_brace h
  obtain ⟨e, u, hruleset⟩ : ∃ e u, ruleset block (s.giveUp s) = .error e u := by
    have hrest : (s.giveUp s).cursor.rest = '\x7d' :: w := h
    have hsequence := sequence_of_brace (s := s.giveUp s) (.inr rfl) hrest
    unfold ruleset Selector.groupText Selector.group Selector.selector here
    simp only [bind_apply, get_apply, pure_apply,
      passes_of_none (show Selector.combinator (s.giveUp s).cursor.rest = none by rw [hrest]; rfl),
      hsequence,
      Bool.false_eq_true, if_false]
    exact ⟨_, _, rfl⟩
  have hdollar : char '$' s.cursor.rest = none := by rw [h]; rfl
  have hat : char '@' s.cursor.rest = none := by rw [h]; rfl
  obtain ⟨e', hfailed⟩ : ∃ e', declarationOrRuleset block s = .error e' u := by
    unfold declarationOrRuleset
    simp only [hdeclaration, hruleset]
    exact ⟨_, rfl⟩
  unfold statement
  simp only [bind_apply, sees_apply, hdollar, hat, Option.isSome_none, Bool.false_eq_true, if_false]
  exact ⟨e', u, hfailed⟩

theorem listItem_of_brace (nested : Bool) {w : Text} (h : s.cursor.rest = '\x7d' :: w) :
    ∃ e u, listItem nested s = .error e u := by
  obtain ⟨e, u, hstatement⟩ := statement_of_brace h
  have hcomment : comment s = .ok none s := by
    rw [comment_apply, show Recognizer.blockComment s.cursor.rest = none by rw [h]; rfl,
      show Recognizer.lineComment s.cursor.rest = none by rw [h]; rfl]
  unfold listItem
  simp only [bind_apply, hcomment, hstatement]
  exact ⟨e, u, rfl⟩

end Grammar

namespace Seam

open Grammar

variable {S : Seam} {n : Nat} {s t u : State} {r : List Node × Option Unit} {nested nested' : Bool}

/-! ### A round in the text and in the whole -/

variable (S) in
/-- The place behind the mark, for the end of the text. -/
def Beyond (c d : Cursor) : Prop :=
  c.rest = [] ∧ d = ((c.prolong S.behind).advance 1).advance 1

variable (S) in
/-- What a round comes to in the whole that has an answer in the text: the same, unless it goes past
a semicolon behind the text.  The last round of a list is the last one in the whole if there is a
brace to end the list, in the text or right behind it. -/
inductive Goes (n : Nat) (nested : Bool) (r : List Node × Option Unit) (u : State) :
    EStateM.Result SyntaxError State (List Node × Option Unit) → Prop
  | same {v : State} (ends : S.Beside (S.Place n) u v)
      (last : r.2 = none → S.Settled n u.cursor v.cursor ∧
        (nested = true ∨ S.mark = '\x7d' ∧ u.cursor.rest = [])) :
      Goes n nested r u (.ok r v)
  | past {v : State} (mark : S.mark = ';') (ends : S.Beside S.Beyond u v) :
      Goes n nested r u (.ok (r.1, some ()) v)

theorem atEnd_of_ne {c : Cursor} (h : c.rest ≠ []) : c.atEnd = false :=
  Bool.eq_false_iff.mpr fun hempty => h (List.isEmpty_iff.mp hempty)

/-- Within the text the list ends in both or in neither. -/
theorem sees_brace {c d : Cursor} (h : S.Level n c d) (hne : c.rest ≠ []) :
    d.atEnd = c.atEnd ∧ ∀ x, d.sees (char x) = c.sees (char x) := by
  obtain ⟨y, w, hrest⟩ := List.exists_cons_of_ne_nil hne
  have hrest' : d.rest = y :: (w ++ S.behind) := by rw [h.rest, hrest]; rfl
  rw [Cursor.atEnd, Cursor.atEnd, hrest, hrest']
  refine ⟨rfl, fun x => ?_⟩
  rw [Cursor.sees, Cursor.sees, hrest, hrest']
  rfl

section
variable (hnested : nested = true → nested' = true) (hbrace : S.mark = '\x7d' → nested' = true)
include hnested hbrace

omit hnested in
/-- Right before the mark a list in braces ends. -/
theorem ends_of_mark {d : Cursor} (hmark : S.mark = '\x7d') (hd : d.rest = S.mark :: S.more) :
    (d.atEnd || nested' && d.sees (char '\x7d')) = true := by
  rw [Cursor.sees, hd, hmark, hbrace hmark]
  exact Bool.or_true _

omit hbrace in
/-- Within the text a list in braces ends in the whole where it ends in the text. -/
theorem ends_within {c d : Cursor} (h : S.Level n c d) (hne : c.rest ≠ [])
    (hends : (c.atEnd || nested && c.sees (char '\x7d')) = true) :
    (d.atEnd || nested' && d.sees (char '\x7d')) = true := by
  obtain ⟨hend, hsees⟩ := sees_brace h hne
  rw [atEnd_of_ne hne, Bool.false_or, Bool.and_eq_true] at hends
  rw [hsees, hends.2, hnested hends.1]
  exact Bool.or_true _

theorem separated_behind {node : Node} (hs : S.Beside (S.Place n) s t)
    (h : separated nested node s = .ok r u) : S.Goes n nested r u (separated nested' node t) := by
  have hsettled := hs.cursor.skip_trivia
  obtain ⟨rfl, hends⟩ := separated_eq_ok h
  by_cases hend : (s.cursor.skip Recognizer.trivia).rest = []
  · obtain rfl : u = { s with cursor := s.cursor.skip Recognizer.trivia } := by
      rcases hends with ⟨w, hw, -⟩ | ⟨-, hu⟩
      · rw [hend] at hw
        cases hw
      · exact hu
    have hstop := hsettled.stop hend
    rcases S.mark_cases with hmark | hmark
    · rw [separated_of_semicolon (by rw [hstop, hmark])]
      exact .past hmark (hs.moved ⟨hend, congrArg (Cursor.advance 1) (hsettled.past hend)⟩)
    · rw [separated_of_end (ends_of_mark hbrace hmark hstop)]
      exact .same (hs.moved hsettled.place) fun hnone => by cases hnone
  · have hlevel := hsettled.place.level_of_ne hend
    rcases hends with ⟨w, hw, rfl⟩ | ⟨hstop, rfl⟩
    · have hw' : (t.cursor.skip Recognizer.trivia).rest = ';' :: (w ++ S.behind) := by
        rw [hlevel.rest, hw]; rfl
      rw [separated_of_semicolon hw']
      have hbehind :=
        (hlevel.advance (k := 1) (by rw [hw]; exact Nat.succ_pos _)).mono (Nat.sub_le _ _)
      exact .same (hs.moved (.level hbehind)) fun hnone => by cases hnone
    · rw [separated_of_end (ends_within hnested hlevel hend hstop)]
      exact .same (hs.moved (.level hlevel)) fun hnone => by cases hnone

theorem statementEnd_behind {node : Node} (hs : S.Beside (S.Place n) s t)
    (h : statementEnd nested node s = .ok r u) :
    S.Goes n nested r u (statementEnd nested' node t) := by
  rw [statementEnd_apply] at h ⊢
  rcases hs.cursor.level_or_past with hlevel | ⟨hend, -⟩
  · have hclosed : t.atBlockEnd = s.atBlockEnd := by
      unfold State.atBlockEnd
      rw [hs.blockEnd, hlevel.offset_eq]
    rw [hclosed]
    split at h
    · next hblock =>
      cases h
      exact (if_pos hblock).symm ▸ .same hs fun hnone => by cases hnone
    · next hblock => exact (if_neg hblock).symm ▸ separated_behind hnested hbrace hs h
  · -- At the end of the text it makes no difference whether the statement ended in a block.
    have hskip := Cursor.skip_trivia_of_end hend
    have hseparated : separated nested node s = .ok ([node], some ()) s := by
      rw [separated_of_end (by rw [hskip, Cursor.atEnd, hend]; rfl), hskip]
    obtain ⟨rfl, rfl⟩ : ([node], some ()) = r ∧ s = u := by
      split at h
      · exact EStateM.Result.ok.inj h
      · exact EStateM.Result.ok.inj (hseparated.symm.trans h)
    split
    · exact .same hs fun hnone => by cases hnone
    · exact separated_behind hnested hbrace hs hseparated

theorem listItem_behind (hblock : S.Lasts True (S.Place n) (S.Place n) block block)
    (hs : S.Beside (S.Level n) s t) (h : listItem nested s = .ok r u) :
    S.Goes n nested r u (listItem nested' t) := by
  have hcomment := lasts_comment s t hs
  unfold listItem at h ⊢
  rw [bind_apply] at h ⊢
  generalize comment s = rc, comment t = rc' at hcomment h ⊢
  cases hcomment with
  | error e e' ends => cases h
  | doomed e v _ _ => cases h
  | @ok node v w ends =>
    cases node with
    | some node =>
      cases h
      exact .same (ends.mono fun _ _ h => .level h) fun hnone => by cases hnone
    | none =>
      have hstatement := lasts_statement hblock v w ends
      dsimp only at h ⊢
      rw [bind_apply] at h ⊢
      generalize statement block v = rs, statement block w = rs' at hstatement h ⊢
      cases hstatement with
      | error e e' ends => cases h
      | doomed e v _ _ => cases h
      | ok node ends => exact statementEnd_behind hnested hbrace ends h

theorem listRound_behind (hblock : S.Lasts True (S.Place n) (S.Place n) block block)
    (hs : S.Beside (S.Settled n) s t) (h : listRound nested s = .ok r u) :
    S.Goes n nested r u (listRound nested' t) := by
  by_cases hend : s.cursor.rest = []
  · have hshort : listRound nested s = .ok ([], none) s :=
      listRound_of_end (by rw [Cursor.atEnd, hend]; rfl)
    cases hshort.symm.trans h
    have hstop := hs.cursor.stop hend
    rcases S.mark_cases with hmark | hmark
    · rw [listRound_of_semicolon (by rw [hstop, hmark])]
      exact .past hmark (hs.moved ⟨hend, congrArg (Cursor.advance 1) (hs.cursor.past hend)⟩)
    · rw [listRound_of_end (ends_of_mark hbrace hmark hstop)]
      exact .same (hs.mono fun _ _ h => h.place) fun _ => ⟨hs.cursor, .inr ⟨hmark, hend⟩⟩
  · have hlevel := hs.cursor.place.level_of_ne hend
    obtain ⟨hatEnd, hsees⟩ := sees_brace hlevel hend
    obtain ⟨x, w, hrest⟩ := List.exists_cons_of_ne_nil hend
    have hrest' : t.cursor.rest = x :: (w ++ S.behind) := by rw [hlevel.rest, hrest]; rfl
    cases hends : s.cursor.atEnd || nested && s.cursor.sees (char '\x7d') with
    | true =>
      cases (listRound_of_end hends).symm.trans h
      rw [listRound_of_end (ends_within hnested hlevel hend hends)]
      have hbraces : nested = true := by
        rw [atEnd_of_ne hend, Bool.false_or, Bool.and_eq_true] at hends
        exact hends.1
      exact .same (hs.mono fun _ _ h => h.place) fun _ => ⟨hs.cursor, .inl hbraces⟩
    | false =>
      by_cases hsemicolon : x = ';'
      · subst hsemicolon
        cases (listRound_of_semicolon hrest).symm.trans h
        rw [listRound_of_semicolon hrest']
        have hbehind :=
          (hlevel.advance (k := 1) (by rw [hrest]; exact Nat.succ_pos _)).mono (Nat.sub_le _ _)
        exact .same (hs.moved (.level hbehind)) fun hnone => by cases hnone
      · have hhead : ∀ {c : Cursor} {w : Text}, c.rest = x :: w → c.rest.head? ≠ some ';' := by
          intro c w hc heq
          rw [hc] at heq
          exact hsemicolon (Option.some.inj heq)
        rw [listRound_of_item hends (hhead hrest)] at h
        have hopen : x ≠ '\x7d' := by
          rintro rfl
          obtain ⟨e, v, herror⟩ := listItem_of_brace nested hrest
          cases herror.symm.trans h
        have hnone : t.cursor.sees (char '\x7d') = false := by
          rw [Cursor.sees, char_eq_none (head_ne hrest' hopen)]
          rfl
        have hends' : (t.cursor.atEnd || nested' && t.cursor.sees (char '\x7d')) = false := by
          rw [hnone, hatEnd, Bool.and_false, Bool.or_false]
          exact (Bool.or_eq_false_iff.mp hends).1
        rw [listRound_of_item hends' (hhead hrest')]
        exact listItem_behind hnested hbrace hblock { hs with cursor := hlevel } h

/-- **A round of the text has the same answer whatever follows.** -/
theorem listStep_behind (hblock : S.Lasts True (S.Place n) (S.Place n) block block)
    (hs : S.Beside (S.Place n) s t) (h : listStep block nested s = .ok r u) :
    S.Goes n nested r u (listStep block nested' t) := by
  rw [listStep_apply] at h ⊢
  exact listRound_behind hnested hbrace hblock (hs.moved hs.cursor.skip_blanks) h

/-! ### A run in the text and in the whole -/

omit hnested hbrace in
theorem loop_of_end (hend : s.cursor.rest = []) {ns : List Node}
    (h : Loop (fun () => listStep block nested) () s (.ok ns u)) : ns = [] ∧ u = s := by
  have hround : listStep block nested s = _ := listStep_of_end hend
  generalize hr : EStateM.Result.ok ns u = r at h
  cases h with
  | stops round =>
    cases hr
    cases hround.symm.trans round
    exact ⟨rfl, rfl⟩
  | fails round => cases hr
  | goesOn round others => cases hround.symm.trans round

/-- **A list of the text is the same list in the whole, or the front of one that goes on behind the
mark.** -/
theorem statements_behind (hblock : S.Lasts True (S.Place n) (S.Place n) block block) {b : Unit}
    {ns : List Node} (h : Loop (fun () => listStep block nested) b s (.ok ns u))
    (hs : S.Beside (S.Place n) s t) :
    (∃ v, Loop (fun () => listStep block nested') b t (.ok ns v) ∧ S.Beside (S.Settled n) u v ∧
      (nested = true ∨ S.mark = '\x7d' ∧ u.cursor.rest = [])) ∨
    S.mark = ';' ∧ ∃ v, S.Beside S.Beyond u v ∧ ∀ r, Loop (fun () => listStep block nested') b v r →
      Loop (fun () => listStep block nested') b t (foundBefore ns r) := by
  generalize hr : EStateM.Result.ok ns u = r at h
  induction h generalizing ns t with
  | fails round => cases hr
  | @stops b s v found round =>
    cases hr
    have hgoes := listStep_behind hnested hbrace hblock hs round
    generalize hlong : listStep block nested' t = r' at hgoes
    cases hgoes with
    | same ends last =>
      obtain ⟨hsettled, hclosed⟩ := last rfl
      exact .inl ⟨_, .stops hlong, { ends with cursor := hsettled }, hclosed⟩
    | past hmark ends => exact .inr ⟨hmark, _, ends, fun r hr => .goesOn hlong hr⟩
  | @goesOn b b' s v found r round others ih =>
    have hgoes := listStep_behind hnested hbrace hblock hs round
    generalize hlong : listStep block nested' t = r' at hgoes
    cases r with
    | error e w => cases hr
    | ok more w =>
      cases hr
      cases hgoes with
      | past hmark ends =>
        obtain ⟨rfl, rfl⟩ := loop_of_end ends.cursor.1 others
        rw [List.append_nil]
        exact .inr ⟨hmark, _, ends, fun r hr => .goesOn hlong hr⟩
      | same ends _ =>
        rcases ih ends rfl with ⟨x, hloop, ends, hclosed⟩ | ⟨hmark, x, ends, hmore⟩
        · exact .inl ⟨x, .goesOn hlong hloop, ends, hclosed⟩
        · refine .inr ⟨hmark, x, ends, fun r hr => ?_⟩
          rw [← foundBefore_append]
          exact .goesOn hlong (hmore r hr)

end

/-! ### Blocks -/

theorem expect_of_cons {x : Char} {w : Text} (h : s.cursor.rest = x :: w) :
    expect x s = .ok () { s with cursor := s.cursor.advance 1 } := by
  have hpass : passes (char x) s = .ok true { s with cursor := s.cursor.advance 1 } :=
    passes_of_some (by rw [h, char, Recognizer.one, if_pos (beq_self_eq_true x)])
  unfold expect
  rw [bind_apply, hpass]
  rfl

/-- The closing brace of a block in the text. -/
theorem lasts_closeBlock (ns : List Node) : S.Lasts True (S.Level n) (S.Level n) (do
      expect '\x7d'
      modify fun s => { s with blockEnd := some s.cursor.offset }
      return ns) (do
      expect '\x7d'
      modify fun s => { s with blockEnd := some s.cursor.offset }
      return ns) := by
  intro s t hs
  rw [bind_apply, bind_apply]
  cases hshort : expect '\x7d' s with
  | error e u => exact .doomed e u _ trivial
  | ok _ u =>
    obtain ⟨w, hrest, rfl⟩ := expect_of_ok hshort
    have hrest' : t.cursor.rest = '\x7d' :: (w ++ S.behind) := by rw [hs.cursor.rest, hrest]; rfl
    have hlevel :=
      (hs.cursor.advance (k := 1) (by rw [hrest]; exact Nat.succ_pos _)).mono (Nat.sub_le _ _)
    have hwithin : (s.cursor.advance 1).offset ≤ S.text.byteLength :=
      Nat.le_trans (Nat.le_add_right _ _) (Nat.le_of_eq hlevel.offset)
    rw [expect_of_cons hrest']
    exact .ok ns { hs with
      cursor := hlevel
      blockEnd := congrArg some hlevel.offset_eq
      ended := by rintro e ⟨⟩; exact hwithin }

/-- **A block of the text is the same block whatever follows.** -/
theorem lasts_block : S.Lasts True (S.Place n) (S.Place n) block block := by
  induction n using Nat.strongRecOn with
  | ind n ih =>
    intro s t hs
    rw [block_eq]
    refine (lasts_expect tight_place (by decide) s t hs).bind fun _ u v hopen ends => ?_
    obtain ⟨w, hrest, -⟩ := expect_of_ok hopen
    -- Behind the brace there is less left of the text.
    have hlt : n - 1 < n := by
      have hbound := (hs.cursor.level_of_ne (by rw [hrest]; exact List.cons_ne_nil _ _)).bound
      rw [s.cursor.left_eq, hrest, List.length_cons] at hbound
      omega
    rw [bind_apply, bind_apply]
    cases hshort : statements block true u with
    | error e w => exact .doomed e w _ trivial
    | ok ns w =>
      by_cases hend : w.cursor.rest = []
      · obtain ⟨e, herror⟩ := expect_of_none (x := '\x7d') (s := w) (by rw [hend]; decide)
        simp only [bind_apply, herror]
        exact .doomed e w _ trivial
      · have hloop := ((progresses.statements true).ends u _).mpr hshort
        rcases statements_behind id (fun _ => rfl) (ih _ hlt) hloop
          (ends.mono fun _ _ h => .level h) with
          ⟨x, hlong, ends, -⟩ | ⟨-, x, ends, -⟩
        · rw [((progresses.statements true).ends v _).mp hlong]
          have hlevel : S.Beside (S.Level (n - 1)) w x :=
            { ends with cursor := ends.cursor.place.level_of_ne hend }
          exact (lasts_closeBlock ns).mono (fun _ _ h => h) Level.place_of_pred w x hlevel
        · exact absurd ends.cursor.1 hend

/-! ### The start of the text -/

theorem beside_start (options : Options) : S.Beside (S.Place S.text.length) (.start S.text options)
    (.start (S.text ++ S.behind) options) where
  options := rfl
  blockEnd := rfl
  ended := nofun
  warnings := rfl
  rollback := ⟨rfl, rfl⟩
  cursor := .level {
    bound := Nat.le_refl _
    suffix := List.suffix_refl _
    offset := Nat.zero_add _
    same := rfl }

section
variable {options : Options} {ns : List Node}
  (h : Loop (fun () => listStep block false) () (.start S.text options) (.ok ns u))
include h

/-- **In front of a semicolon** the list of the whole text goes on behind it. -/
theorem list_of_semicolon (hmark : S.mark = ';') : ∃ v, S.Beside S.Beyond u v ∧
    ∀ r, Loop (fun () => listStep block false) () v r →
      Loop (fun () => listStep block false) () (.start (S.text ++ S.behind) options)
        (foundBefore ns r) := by
  have hbrace : S.mark ≠ '\x7d' := by rw [hmark]; decide
  rcases statements_behind id (absurd · hbrace) lasts_block h (beside_start options) with
    ⟨-, -, -, hnested | ⟨hmark, -⟩⟩ | ⟨-, hgoes⟩
  · cases hnested
  · exact absurd hmark hbrace
  · exact hgoes

/-- **In front of a closing brace** the list of the whole text is that of a block. -/
theorem list_of_brace (hmark : S.mark = '\x7d') :
    ∃ v, Loop (fun () => listStep block true) () (.start (S.text ++ S.behind) options) (.ok ns v) ∧
      v.cursor.rest = '\x7d' :: S.more ∧ v.warnings = u.warnings := by
  rcases statements_behind (fun _ => rfl) (fun _ => rfl) lasts_block h (beside_start options) with
    ⟨v, hlong, ends, hnested | ⟨-, hend⟩⟩ | ⟨hsemicolon, -⟩
  · cases hnested
  · exact ⟨v, hlong, hmark ▸ ends.cursor.stop hend, ends.warnings⟩
  · rw [hmark] at hsemicolon
    cases hsemicolon

end

end Seam
end Stylesheet
