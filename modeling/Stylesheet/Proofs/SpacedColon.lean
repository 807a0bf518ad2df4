import Stylesheet.Proofs.Productions

/-!
# A colon that no selector goes past

A name with a colon behind it may begin a declaration as well as a selector.  Where white space of
ASCII or a comment follows the colon, it is no pseudo-class, and selectors stop right before it
(`groupText_of_name`).  So such a text is no ruleset, whatever it is as a declaration
(`ruleset_of_spacedName`).
-/
namespace Stylesheet
namespace Grammar

/-! ### Productions that pass nothing -/

section
variable {s t : State} {form : Recognizer}

theorem passes_of_some {n : Nat} (h : form s.cursor.rest = some n) :
    passes form s = .ok true { s with cursor := s.cursor.advance n } := by
  rw [passes_apply, h]

theorem passes_of_none (h : form s.cursor.rest = none) : passes form s = .ok false s := by
  rw [passes_apply, h]

theorem sees_apply : sees form s = .ok (form s.cursor.rest).isSome s := rfl

theorem orM_of_true {p q : Production Bool} (h : p s = .ok true t) : (p <||> q) s = .ok true t := by
  unfold orM
  rw [bind_apply, h]
  rfl

theorem orM_of_false {p q : Production Bool} (h : p s = .ok false t) : (p <||> q) s = q t := by
  unfold orM
  rw [bind_apply, h]
  rfl

theorem interpolation_of_none (h : Recognizer.literal ['#', '{'] s.cursor.rest = none) :
    interpolation s = .ok false s := by
  unfold interpolation
  rw [bind_apply, passes_of_none h]
  rfl

theorem repeatWhile_apply (size : State → Nat) (step : Production Bool) (s : State) :
    repeatWhile size step s =
      match step s with
      | .error e t => .error e t
      | .ok false t => .ok () t
      | .ok true t => if size t < size s then repeatWhile size step t else .ok () t := by
  unfold repeatWhile
  rw [bind_apply, unfold_apply]
  simp only [bind_apply, pure_apply]
  cases step s with
  | error e t => rfl
  | ok again t =>
    cases again with
    | false => rfl
    | true =>
      simp only [if_true]
      by_cases hlt : size t < size s
      · rw [if_pos hlt, if_pos hlt]
        cases unfold size (fun _ => step >>= fun again =>
          pure ([()], if again then some () else none)) () t <;> rfl
      · rw [if_neg hlt, if_neg hlt]

end

/-! ### Before a colon with space behind it -/

/-- A text that begins with a colon and goes on with white space of ASCII or a slash. -/
def AtColon (t : Text) : Prop :=
  ∃ x u, t = ':' :: x :: u ∧ (x = '/' ∨ isBlank x = true ∧ x.toNat ≤ 0x7F)

theorem mem_of_isBlank {x : Char} (hblank : isBlank x = true) (hascii : x.toNat ≤ 0x7F) :
    x ∈ ['\t', '\n', '\x0b', '\x0c', '\r', ' '] := by
  have hall : ∀ n < 0x80, isBlank (Char.ofNat n) = true →
      Char.ofNat n ∈ ['\t', '\n', '\x0b', '\x0c', '\r', ' '] := by decide
  have hx := hall x.toNat (by omega)
  rw [Char.ofNat_toNat] at hx
  exact hx hblank

/-- What the forms of selectors make of such a text: only the mark of a pseudo-class fits, and
behind it there is no name. -/
theorem AtColon.forms {t : Text} (h : AtColon t) :
    Selector.pseudoMark t = some 1 ∧ Recognizer.identifier (t.drop 1) = none ∧
      Recognizer.literal ['#', '{'] (t.drop 1) = none ∧ Selector.notHead t = none := by
  obtain ⟨x, u, rfl, hx⟩ := h
  have hmem : x ∈ ['/', '\t', '\n', '\x0b', '\x0c', '\r', ' '] := by
    rcases hx with rfl | ⟨hblank, hascii⟩
    · exact List.mem_cons_self
    · exact List.mem_cons_of_mem _ (mem_of_isBlank hblank hascii)
  simp only [List.mem_cons, List.not_mem_nil, or_false] at hmem
  rcases hmem with rfl | rfl | rfl | rfl | rfl | rfl | rfl <;> exact ⟨rfl, rfl, rfl, rfl⟩

theorem AtColon.trivia {t : Text} (h : AtColon t) : Recognizer.trivia t = none := by
  obtain ⟨x, u, rfl, _⟩ := h
  exact Recognizer.trivia_eq_none rfl (by decide)

/-! ### Pieces of names and pieces of selectors -/

section
variable {t : Text} {x : Char}

theorem head_ne {u : Text} {y : Char} (hrest : t = x :: u) (hne : x ≠ y) : t.head? ≠ some y := by
  rw [hrest, List.head?_cons]
  exact fun heq => hne (Option.some.inj heq)

theorem char_eq_none (h : t.head? ≠ some x) : char x t = none := by
  cases t with
  | nil => rfl
  | cons y t =>
    have hne : ¬ (y == x) = true := fun heq => h (congrArg some (eq_of_beq heq))
    rw [char, Recognizer.one, if_neg hne]

theorem char_eq_some {n : Nat} (h : char x t = some n) : ∃ u, t = x :: u ∧ n = 1 := by
  cases t with
  | nil => cases h
  | cons y t =>
    simp only [char, Recognizer.one] at h
    split at h
    · next heq =>
      cases h
      exact ⟨t, by rw [eq_of_beq heq], rfl⟩
    · cases h

theorem andThen_eq_none {first : Recognizer} (h : first t = none) (second : Recognizer) :
    first.andThen second t = none := by
  rw [Recognizer.andThen, h]
  rfl

theorem literal_eq_none {word : Text} (h : t.head? ≠ some x) :
    Recognizer.literal (x :: word) t = none := by
  refine if_neg fun hfront => h ?_
  obtain ⟨u, rfl⟩ := List.isPrefixOf_iff_prefix.mp hfront
  rfl

theorem combinator_eq_none (hplus : t.head? ≠ some '+') (hgreater : t.head? ≠ some '>')
    (htilde : t.head? ≠ some '~') : Selector.combinator t = none := by
  cases t with
  | nil => rfl
  | cons y t =>
    refine if_neg fun hy => ?_
    simp only [Bool.or_eq_true, beq_iff_eq] at hy
    rcases hy with (rfl | rfl) | rfl
    · exact hplus rfl
    · exact hgreater rfl
    · exact htilde rfl

theorem toLower_eq {y : Char} (h : x.toLower = y) :
    x = y ∨ 65 ≤ x.toNat ∧ x.toNat ≤ 90 ∧ y.toNat = x.toNat + 32 := by
  unfold Char.toLower at h
  split at h
  · next hupper =>
    have hlow : (65 : UInt32) ≤ x.val := hupper.1
    have hhigh : x.val ≤ 90 := hupper.2
    rw [UInt32.le_iff_toNat_le] at hlow hhigh
    have hsum : (x.val + 32).toNat = y.val.toNat := congrArg (fun c : Char => c.val.toNat) h
    rw [UInt32.toNat_add] at hsum
    simp only [UInt32.reduceToNat] at hlow hhigh hsum
    rw [Char.toNat, Char.toNat]
    omega
  · exact .inl h

theorem foldCase_eq {y : Char} (hs : y ≠ 's') (hk : y ≠ 'k') (h : foldCase x = y) :
    x = y ∨ 65 ≤ x.toNat ∧ x.toNat ≤ 90 ∧ y.toNat = x.toNat + 32 := by
  unfold foldCase at h
  split at h
  · exact absurd h.symm hs
  · split at h
    · exact absurd h.symm hk
    · exact toLower_eq h

theorem foldCase_ne_colon (h : x ≠ ':') : foldCase x ≠ ':' := by
  intro heq
  rcases foldCase_eq (by decide) (by decide) heq with hx | ⟨hlow, _, hsum⟩
  · exact h hx
  · have hcolon : Char.toNat ':' = 58 := rfl
    omega

theorem notHead_eq_none (h : t.head? ≠ some ':') : Selector.notHead t = none := by
  refine if_neg fun hfold => ?_
  cases t with
  | nil => cases hfold
  | cons y t =>
    have hne := foldCase_ne_colon (x := y) fun heq => h (congrArg some heq)
    exact hne (List.cons.inj hfold).1

end

section
variable {s : State} {inner : Production Bool}

theorem piece_of_head (hidentifier : Recognizer.identifier s.cursor.rest = none)
    (hhash : Selector.hashName s.cursor.rest = none)
    (hstar : s.cursor.rest.head? ≠ some '*') (hand : s.cursor.rest.head? ≠ some '&')
    (hdot : s.cursor.rest.head? ≠ some '.') (hbracket : s.cursor.rest.head? ≠ some '[') :
    Selector.piece inner s =
      (Selector.negationPiece inner <||> Selector.pseudoPiece <||> interpolation) s := by
  have hname :
      (Selector.element.orElse (Selector.hashName.orElse (char '&'))) s.cursor.rest = none := by
    simp only [Recognizer.orElse, Selector.element, hidentifier, hhash,
      char_eq_none hstar, char_eq_none hand]
    rfl
  have hclass : Selector.classPiece s = .ok false s := by
    have hnamed : Selector.className s.cursor.rest = none :=
      andThen_eq_none (char_eq_none hdot) _
    unfold Selector.classPiece
    rw [bind_apply, passes_of_none hnamed]
    simp only [Bool.false_eq_true, if_false]
    rw [bind_apply, sees_apply, literal_eq_none hdot]
    rfl
  have hattribute : Selector.attributePiece s = .ok false s := by
    unfold Selector.attributePiece
    rw [bind_apply, passes_of_none (char_eq_none hbracket)]
    rfl
  unfold Selector.piece
  rw [orM_of_false (passes_of_none hname), orM_of_false hclass, orM_of_false hattribute]

theorem negationPiece_of_none (h : Selector.notHead s.cursor.rest = none) :
    Selector.negationPiece inner s = .ok false s := by
  unfold Selector.negationPiece
  rw [bind_apply, passes_of_none h]
  rfl

theorem namePiece_of_none (h : Recognizer.identifier s.cursor.rest = none) :
    namePiece s = interpolation s :=
  orM_of_false (passes_of_none h)

theorem pseudoPiece_of_none (h : s.cursor.rest.head? ≠ some ':') :
    Selector.pseudoPiece s = .ok false s := by
  have hmark : Selector.pseudoMark s.cursor.rest = none := andThen_eq_none (char_eq_none h) _
  unfold Selector.pseudoPiece here
  rw [bind_apply, bind_apply, get_apply]
  simp only [pure_apply, bind_apply, passes_of_none hmark]
  rfl

theorem pseudoPiece_of_nameless {n : Nat} (hmark : Selector.pseudoMark s.cursor.rest = some n)
    {t : State} (hname : namePiece { s with cursor := s.cursor.advance n } = .ok false t) :
    Selector.pseudoPiece s = .ok false { t with cursor := s.cursor } := by
  have hname' : (passes Recognizer.identifier <||> interpolation)
      { s with cursor := s.cursor.advance n } = .ok false t := hname
  unfold Selector.pseudoPiece here moveTo
  simp only [bind_apply, get_apply, pure_apply, passes_of_some hmark, if_true, hname',
    Bool.false_eq_true, if_false, modify_apply]

theorem pseudoPiece_of_name {n : Nat}
    (hmark : Selector.pseudoMark s.cursor.rest = some n) {t : State}
    (hname : namePiece { s with cursor := s.cursor.advance n } = .ok true t)
    (hparen : char '(' t.cursor.rest = none) : Selector.pseudoPiece s = .ok true t := by
  have hname' : (passes Recognizer.identifier <||> interpolation)
      { s with cursor := s.cursor.advance n } = .ok true t := hname
  unfold Selector.pseudoPiece here moveTo
  simp only [bind_apply, get_apply, pure_apply, passes_of_some hmark, if_true, hname',
    passes_of_none hparen, Bool.false_eq_true, if_false]

/-- No piece of a selector begins where white space or a comment does, unless it is a name. -/
theorem piece_of_space (hidentifier : Recognizer.identifier s.cursor.rest = none)
    {x : Char} {u : Text} (hrest : s.cursor.rest = x :: u) (hx : isBlank x = true ∨ x = '/') :
    Selector.piece inner s = .ok false s := by
  have hne : ∀ y, isBlank y = false → y ≠ '/' → s.cursor.rest.head? ≠ some y := by
    intro y hblank hslash heq
    rw [hrest] at heq
    cases heq
    rcases hx with hx | hx
    · rw [hx] at hblank
      cases hblank
    · exact hslash hx
  have hhash := hne '#' (by decide) (by decide)
  have hcolon := hne ':' (by decide) (by decide)
  rw [piece_of_head hidentifier (andThen_eq_none (char_eq_none hhash) _)
      (hne '*' (by decide) (by decide)) (hne '&' (by decide) (by decide))
      (hne '.' (by decide) (by decide)) (hne '[' (by decide) (by decide)),
    orM_of_false (negationPiece_of_none (notHead_eq_none hcolon)),
    orM_of_false (pseudoPiece_of_none hcolon), interpolation_of_none (literal_eq_none hhash)]

/-- No piece of a selector begins at a colon with space behind it. -/
theorem piece_of_colon (h : AtColon s.cursor.rest) : Selector.piece inner s = .ok false s := by
  obtain ⟨hmark, hidentifier, hopen, hnot⟩ := h.forms
  have hpseudo : Selector.pseudoPiece s = .ok false s :=
    pseudoPiece_of_nameless (t := { s with cursor := s.cursor.advance 1 }) hmark
      ((namePiece_of_none hidentifier).trans (interpolation_of_none hopen))
  obtain ⟨x, u, hrest, _⟩ := h
  have hcolon : Recognizer.identifier s.cursor.rest = none := by rw [hrest]; rfl
  have hhash : Selector.hashName s.cursor.rest = none := by rw [hrest]; rfl
  have hbrace : Recognizer.literal ['#', '{'] s.cursor.rest = none := by rw [hrest]; rfl
  rw [piece_of_head hcolon hhash (head_ne hrest (by decide)) (head_ne hrest (by decide))
      (head_ne hrest (by decide)) (head_ne hrest (by decide)),
    orM_of_false (negationPiece_of_none hnot), orM_of_false hpseudo, interpolation_of_none hbrace]

/-- Where a piece of a name declines, nothing was passed. -/
theorem namePiece_eq_false {t : State} (h : namePiece s = .ok false t) :
    t = s ∧ Recognizer.identifier s.cursor.rest = none := by
  cases hidentifier : Recognizer.identifier s.cursor.rest with
  | some n =>
    have hpass : namePiece s = .ok true _ := orM_of_true (passes_of_some hidentifier)
    rw [hpass] at h
    cases h
  | none =>
    rw [namePiece_of_none hidentifier] at h
    unfold interpolation at h
    cases hopen : Recognizer.literal ['#', '{'] s.cursor.rest with
    | none =>
      rw [bind_apply, passes_of_none hopen] at h
      cases h
      exact ⟨rfl, rfl⟩
    | some n =>
      rw [bind_apply, passes_of_some hopen] at h
      simp only [if_true, bind_apply] at h
      split at h
      · cases h
      · cases h

/-- A piece of a name is a piece of a selector. -/
theorem piece_of_namePiece {t : State} (h : namePiece s = .ok true t) :
    Selector.piece inner s = .ok true t := by
  cases hidentifier : Recognizer.identifier s.cursor.rest with
  | some n =>
    have hpass : namePiece s = .ok true _ := orM_of_true (passes_of_some hidentifier)
    rw [hpass] at h
    have hstar : char '*' s.cursor.rest = none := by
      refine char_eq_none fun hhead => ?_
      obtain ⟨u, hrest⟩ := List.head?_eq_some_iff.mp hhead
      rw [hrest] at hidentifier
      cases hidentifier
    have helement : (Selector.element.orElse (Selector.hashName.orElse (char '&'))) s.cursor.rest =
        some n := by
      simp only [Recognizer.orElse, Selector.element, hstar, hidentifier]
      rfl
    exact (orM_of_true (passes_of_some helement)).trans h
  | none =>
    rw [namePiece_of_none hidentifier] at h
    cases hopen : Recognizer.literal ['#', '{'] s.cursor.rest with
    | none =>
      rw [interpolation_of_none hopen] at h
      cases h
    | some n =>
      obtain ⟨u, hrest⟩ : ∃ u, s.cursor.rest = '#' :: '{' :: u := by
        unfold Recognizer.literal at hopen
        split at hopen
        · next hfront =>
          obtain ⟨u, hu⟩ := List.isPrefixOf_iff_prefix.mp hfront
          exact ⟨u, hu.symm⟩
        · cases hopen
      have hhash : Selector.hashName s.cursor.rest = none := by rw [hrest]; rfl
      have hcolon : s.cursor.rest.head? ≠ some ':' := head_ne hrest (by decide)
      rw [piece_of_head hidentifier hhash (head_ne hrest (by decide)) (head_ne hrest (by decide))
          (head_ne hrest (by decide)) (head_ne hrest (by decide)),
        orM_of_false (negationPiece_of_none (notHead_eq_none hcolon)),
        orM_of_false (pseudoPiece_of_none hcolon)]
      exact h

/-! ### Names before the colon -/

theorem exists_of_trivia {t : Text} {n : Nat} (h : Recognizer.trivia t = some n) :
    ∃ x u, t = x :: u ∧ (isBlank x = true ∨ x = '/') := by
  cases t with
  | nil =>
    have hnil : Text.triviaLength [] = 0 := by unfold Text.triviaLength; rfl
    simp only [Recognizer.trivia, hnil] at h
    cases h
  | cons x u =>
    refine ⟨x, u, rfl, ?_⟩
    cases hblank : isBlank x with
    | true => exact .inl rfl
    | false =>
      refine .inr (Decidable.byContradiction fun hslash => ?_)
      rw [Recognizer.trivia_eq_none hblank hslash] at h
      cases h

/-- Where the pieces of a name end before the colon, no piece of a selector follows. -/
theorem piece_of_end (hidentifier : Recognizer.identifier s.cursor.rest = none)
    (hcolon : AtColon (s.cursor.skip Recognizer.trivia).rest) :
    Selector.piece inner s = .ok false s := by
  cases htrivia : Recognizer.trivia s.cursor.rest with
  | none =>
    rw [Cursor.skip, Cursor.pass?, htrivia] at hcolon
    exact piece_of_colon hcolon
  | some n =>
    obtain ⟨x, u, hrest, hx⟩ := exists_of_trivia htrivia
    exact piece_of_space hidentifier hrest hx

/-- A loop over the pieces of a name before the colon is a loop over the pieces of a selector. -/
theorem pieces_of_name {v : State} (hcolon : AtColon (v.cursor.skip Recognizer.trivia).rest)
    (h : repeatWhile State.size namePiece s = .ok () v) :
    repeatWhile State.size (Selector.piece inner) s = .ok () v := by
  induction hn : s.size using Nat.strongRecOn generalizing s with
  | ind n ih =>
    rw [repeatWhile_apply] at h ⊢
    cases hpiece : namePiece s with
    | error e t =>
      rw [hpiece] at h
      cases h
    | ok again t =>
      rw [hpiece] at h
      cases again with
      | false =>
        cases h
        obtain ⟨rfl, hidentifier⟩ := namePiece_eq_false hpiece
        rw [piece_of_end hidentifier hcolon]
      | true =>
        rw [piece_of_namePiece hpiece]
        simp only at h ⊢
        by_cases hlt : t.size < s.size
        · rw [if_pos hlt] at h ⊢
          exact ih t.size (hn ▸ hlt) h rfl
        · rwa [if_neg hlt] at h ⊢

/-- A name of at least one piece has a first piece. -/
theorem namePiece_of_name {v : State} (h : repeatWhile State.size namePiece s = .ok () v)
    (hlt : s.cursor.offset < v.cursor.offset) :
    ∃ t, namePiece s = .ok true t ∧ s.cursor.Before t.cursor ∧
      repeatWhile State.size namePiece t = .ok () v := by
  rw [repeatWhile_apply] at h
  cases hpiece : namePiece s with
  | error e t =>
    rw [hpiece] at h
    cases h
  | ok again t =>
    rw [hpiece] at h
    cases again with
    | false =>
      cases h
      obtain ⟨rfl, _⟩ := namePiece_eq_false hpiece
      exact absurd hlt (Nat.lt_irrefl _)
    | true =>
      have hahead : s.cursor.Before t.cursor :=
        ((plain_namePiece s (.refl _)).of_ok hpiece).1.ahead
      simp only at h
      split at h
      · exact ⟨t, rfl, hahead, h⟩
      · next hshrinks =>
        -- A piece that leaves as much to read as it found stays where it is.
        cases h
        have hleft : s.cursor.left = v.cursor.left :=
          Nat.le_antisymm (Nat.not_lt.mp hshrinks) hahead.left_le
        rw [Cursor.Before.eq_of_left (.refl _) hahead hleft] at hlt
        exact absurd hlt (Nat.lt_irrefl _)

/-- The first piece of a name begins with none of some characters. -/
theorem head_of_namePiece {t : State} (h : namePiece s = .ok true t) :
    ∀ x ∈ [':', '+', '>', '~', '(', '*'], s.cursor.rest.head? ≠ some x := by
  intro x hx hhead
  obtain ⟨u, hrest⟩ := List.head?_eq_some_iff.mp hhead
  have hdeclines : ∀ x ∈ [':', '+', '>', '~', '(', '*'],
      Recognizer.identifier (x :: u) = none ∧ Recognizer.literal ['#', '{'] (x :: u) = none := by
    intro x hx
    simp only [List.mem_cons, List.not_mem_nil, or_false] at hx
    rcases hx with rfl | rfl | rfl | rfl | rfl | rfl <;> exact ⟨rfl, rfl⟩
  obtain ⟨hidentifier, hopen⟩ := hdeclines x hx
  rw [← hrest] at hidentifier hopen
  rw [namePiece_of_none hidentifier, interpolation_of_none hopen] at h
  cases h

/-- Behind a piece of a name no parenthesis follows before the colon. -/
theorem char_of_name {t v : State} (hcolon : AtColon (v.cursor.skip Recognizer.trivia).rest)
    (h : repeatWhile State.size namePiece t = .ok () v) : char '(' t.cursor.rest = none := by
  refine char_eq_none fun hhead => ?_
  obtain ⟨u, hrest⟩ := List.head?_eq_some_iff.mp hhead
  have hv : t = v := by
    have hpiece : namePiece t = .ok false t := by
      have hidentifier : Recognizer.identifier t.cursor.rest = none := by rw [hrest]; rfl
      have hopen : Recognizer.literal ['#', '{'] t.cursor.rest = none := by rw [hrest]; rfl
      rw [namePiece_of_none hidentifier, interpolation_of_none hopen]
    rw [repeatWhile_apply, hpiece] at h
    cases h
    rfl
  have hskip : v.cursor.skip Recognizer.trivia = v.cursor := by
    rw [Cursor.skip, Cursor.pass?, ← hv, hrest, Recognizer.trivia_eq_none rfl (by decide)]
    rfl
  obtain ⟨x, w, hat, _⟩ := hcolon
  rw [hskip, ← hv, hrest] at hat
  cases hat

/-- The beginning of a negation is a piece of a name behind a colon, and then a parenthesis. -/
theorem identifier_of_notHead {t : Text} {n : Nat} (h : Selector.notHead (':' :: t) = some n) :
    Recognizer.identifier t = some 3 ∧ (t.drop 3).head? = some '(' := by
  unfold Selector.notHead Recognizer.caseless at h
  split at h
  · next hfold =>
    have hletter : ∀ {x y : Char}, y ∈ ['n', 'o', 't'] → foldCase x = y →
        x = y ∨ x = Char.ofNat (y.toNat - 32) := by
      intro x y hy hx
      rcases foldCase_eq (y := y) (by rintro rfl; revert hy; decide)
        (by rintro rfl; revert hy; decide) hx with hx | ⟨_, _, hsum⟩
      · exact .inl hx
      · refine .inr ?_
        rw [hsum, Nat.add_sub_cancel, Char.ofNat_toNat]
    obtain ⟨c₁, c₂, c₃, c₄, u, rfl⟩ : ∃ c₁ c₂ c₃ c₄ u, t = c₁ :: c₂ :: c₃ :: c₄ :: u := by
      have hlength : min 5 (t.length + 1) = 5 := by
        have hboth := congrArg List.length hfold
        rwa [List.length_map, List.length_take, List.length_cons] at hboth
      match t, hlength with
      | c₁ :: c₂ :: c₃ :: c₄ :: u, _ => exact ⟨c₁, c₂, c₃, c₄, u, rfl⟩
    have hfold' : [foldCase ':', foldCase c₁, foldCase c₂, foldCase c₃, foldCase c₄] =
        [':', 'n', 'o', 't', '('] := hfold
    simp only [List.cons.injEq, and_true] at hfold'
    obtain ⟨_, h₁, h₂, h₃, h₄⟩ := hfold'
    obtain rfl : c₄ = '(' := by
      rcases foldCase_eq (by decide) (by decide) h₄ with hx | ⟨hlow, _, hsum⟩
      · exact hx
      · have hcode : Char.toNat '(' = 40 := rfl
        omega
    rcases hletter (by decide) h₁ with rfl | rfl <;>
      rcases hletter (by decide) h₂ with rfl | rfl <;>
      rcases hletter (by decide) h₃ with rfl | rfl <;> exact ⟨rfl, rfl⟩
  · cases h

/-- The first piece of a name is a pseudo-class behind a colon. -/
theorem piece_of_mark {rest : Text} (hrest : s.cursor.rest = ':' :: rest)
    (hhead : ∀ x ∈ [':', '+', '>', '~', '(', '*'], rest.head? ≠ some x) {t : State}
    (hname : namePiece { s with cursor := s.cursor.advance 1 } = .ok true t)
    (hparen : char '(' t.cursor.rest = none) : Selector.piece inner s = .ok true t := by
  have hidentifier : Recognizer.identifier s.cursor.rest = none := by rw [hrest]; rfl
  have hhash : Selector.hashName s.cursor.rest = none := by rw [hrest]; rfl
  have hmark : Selector.pseudoMark s.cursor.rest = some 1 := by
    have hsecond := char_eq_none (hhead ':' (by decide))
    rw [hrest]
    show (do
      let m ← (char ':' rest <|> some 0)
      return 1 + m) = some 1
    rw [hsecond]
    rfl
  have hnot : Selector.notHead s.cursor.rest = none := by
    cases hnot : Selector.notHead s.cursor.rest with
    | none => rfl
    | some n =>
      obtain ⟨hidentifier, hhead⟩ := identifier_of_notHead (hrest ▸ hnot)
      have hbehind : (s.cursor.advance 1).rest = rest := by rw [Cursor.rest_advance, hrest]; rfl
      rw [← hbehind] at hidentifier hhead
      have hpass := orM_of_true (q := interpolation) (s := { s with cursor := s.cursor.advance 1 })
        (passes_of_some hidentifier)
      rw [show namePiece _ = _ from hpass] at hname
      cases hname
      obtain ⟨u, hu⟩ := List.head?_eq_some_iff.mp hhead
      rw [Cursor.rest_advance, hu] at hparen
      cases hparen
  rw [piece_of_head hidentifier hhash (head_ne hrest (by decide)) (head_ne hrest (by decide))
      (head_ne hrest (by decide)) (head_ne hrest (by decide)),
    orM_of_false (negationPiece_of_none hnot)]
  exact orM_of_true (pseudoPiece_of_name hmark hname hparen)

/-- From the state on, the text is a declaration up to a colon with space behind it: perhaps a sign,
a name and perhaps white space and comments. -/
def SpacedName (s : State) : Prop :=
  ∃ marked t v, passes hack s = .ok marked t ∧
    repeatWhile State.size namePiece t = .ok () v ∧ t.cursor.offset < v.cursor.offset ∧
    AtColon (v.cursor.skip Recognizer.trivia).rest

theorem hack_eq_some {t : Text} {n : Nat} (h : hack t = some n) :
    ∃ x rest, t = x :: rest ∧ (x = '*' ∨ x = ':') ∧ n = 1 := by
  rcases orElse_eq_some_iff.mp h with hx | ⟨_, hx⟩
  · obtain ⟨rest, hrest, hn⟩ := char_eq_some hx
    exact ⟨_, rest, hrest, .inl rfl, hn⟩
  · obtain ⟨rest, hrest, hn⟩ := char_eq_some hx
    exact ⟨_, rest, hrest, .inr rfl, hn⟩

/-- A star before a name is the name of an element. -/
theorem piece_of_star {rest : Text} (hrest : s.cursor.rest = '*' :: rest) :
    Selector.piece inner s = .ok true { s with cursor := s.cursor.advance 1 } := by
  have helement : (Selector.element.orElse (Selector.hashName.orElse (char '&'))) s.cursor.rest =
      some 1 := by
    rw [hrest]
    rfl
  exact orM_of_true (passes_of_some helement)

/-- The sign before a name and the first piece of the name are pieces of a selector. -/
theorem SpacedName.pieces (h : SpacedName s) :
    ∃ v, repeatWhile State.size (Selector.piece inner) s = .ok () v ∧
      s.cursor.offset < v.cursor.offset ∧ AtColon (v.cursor.skip Recognizer.trivia).rest ∧
      Selector.combinator s.cursor.rest = none := by
  obtain ⟨marked, t, v, hmark, hname, hlt, hcolon⟩ := h
  obtain ⟨u, hfirst, hahead, hmore⟩ := namePiece_of_name hname hlt
  have hhead := head_of_namePiece hfirst
  rw [passes_apply] at hmark
  cases hhack : hack s.cursor.rest with
  | none =>
    rw [hhack] at hmark
    cases hmark
    exact ⟨v, pieces_of_name hcolon hname, hlt, hcolon, combinator_eq_none (hhead '+' (by decide))
      (hhead '>' (by decide)) (hhead '~' (by decide))⟩
  | some n =>
    rw [hhack] at hmark
    cases hmark
    obtain ⟨x, rest, hrest, hx, rfl⟩ := hack_eq_some hhack
    have hbefore : s.cursor.offset ≤ (s.cursor.advance 1).offset :=
      (Cursor.before_advance 1 s.cursor).offset_le
    have hsize : (s.cursor.advance 1).left < s.cursor.left := by
      have hleft := s.cursor.left_eq
      rw [hrest, List.length_cons] at hleft
      show s.cursor.left - 1 < s.cursor.left
      omega
    have hbehind : (s.cursor.advance 1).rest = rest := by rw [Cursor.rest_advance, hrest]; rfl
    refine ⟨v, ?_, Nat.lt_of_le_of_lt hbefore hlt, hcolon, ?_⟩
    · rw [repeatWhile_apply]
      rcases hx with rfl | rfl
      · rw [piece_of_star hrest]
        exact (if_pos hsize).trans (pieces_of_name hcolon hname)
      · rw [piece_of_mark hrest (by rwa [hbehind] at hhead) hfirst (char_of_name hcolon hmore)]
        exact (if_pos (Nat.lt_of_le_of_lt hahead.left_le hsize)).trans (pieces_of_name hcolon hmore)
    · rcases hx with rfl | rfl
      · exact combinator_eq_none (head_ne hrest (by decide)) (head_ne hrest (by decide))
          (head_ne hrest (by decide))
      · exact combinator_eq_none (head_ne hrest (by decide)) (head_ne hrest (by decide))
          (head_ne hrest (by decide))

end

/-! ### Selectors before the colon -/

/-- A loop over tokens that does not go on behind the first of them. -/
theorem collectUntil_of_stop {β : Type} {go : β → Token → Option β} {b : β}
    {l m : Lexer} {t : Token} (hdone : Lexer.isDone l = .ok false l)
    (hpeek : Lexer.peek l = .ok (some t) m) (hgo : go b t = none) :
    Lexer.collectUntil go b l = .ok [] m.unconsume := by
  unfold Lexer.peek at hpeek
  unfold Lexer.collectUntil Lexer.Rules.collectUntil
  rw [bind_apply, unfold_apply]
  simp only [bind_apply, hdone, hpeek, hgo, pure_apply, modify_apply, Bool.false_eq_true, if_false]

/-- A run of tokens up to an operator is empty where a colon comes next. -/
theorem takeUntil_of_colon {p : Token → Bool} (hp : ∀ t, t.kind = .op .colon → p t = true)
    {d : Cursor} {t : Text} (hrest : d.rest = ':' :: t) (options : Options) :
    ∃ l, Lexer.takeUntil p (.ofCursor d options) = .ok [] l := by
  have hskip : (Lexer.ofCursor d options).skipTrivia = .ofCursor d options :=
    Lexer.skipTrivia_eq (hrest ▸ Recognizer.trivia_eq_none rfl (by decide))
  have hend : d.atEnd = false := by rw [Cursor.atEnd, hrest]; rfl
  have hcolon : Lexeme.at? (0 < (Lexer.ofCursor d options).depth)
      (Lexer.ofCursor d options).skipTrivia.cursor.rest =
        some { kind := .op .colon, length := 1 } := by
    rw [hskip]
    show Lexeme.at? _ d.rest = _
    rw [hrest]
    rfl
  have hdone : Lexer.isDone (.ofCursor d options) = .ok false (.ofCursor d options) := by
    rw [Lexer.isDone_apply, hskip]
    exact congrArg (EStateM.Result.ok · _) hend
  have hread := Lexer.Rules.read_lexeme Lexer.interpolation (l := .ofCursor d options) rfl
    (by rw [hskip]; exact hend) hcolon
  obtain ⟨t, m, hpeek, hkind⟩ : ∃ t m, Lexer.peek (.ofCursor d options) = .ok (some t) m ∧
      t.kind = .op .colon := by
    unfold Lexer.peek
    rw [Lexer.Rules.peek_apply, hread]
    exact ⟨_, _, rfl, rfl⟩
  exact ⟨_, collectUntil_of_stop hdone hpeek (if_pos (hp t hkind))⟩

section
variable {s : State}

theorem run_of_colon (h : AtColon s.cursor.rest) : Selector.run s = .ok false s := by
  obtain ⟨x, u, hrest, _⟩ := h
  obtain ⟨l, hl⟩ := takeUntil_of_colon (p := Token.isOperator)
    (fun t ht => Token.isOperator_iff.mpr ⟨_, ht⟩) hrest s.options
  rw [Selector.run_apply]
  unfold lexing
  simp only [hl]
  rfl

theorem sequenceBy_of_pieces {inner : Production Bool} {v : State}
    (h : repeatWhile State.size (Selector.piece inner) s = .ok () v) :
    Selector.sequenceBy inner s =
      if s.cursor.offset < v.cursor.offset then .ok true v else Selector.run v := by
  unfold Selector.sequenceBy here
  simp only [bind_apply, get_apply, pure_apply, h]
  split <;> rfl

theorem sequenceBy_of_colon {inner : Production Bool} (h : AtColon s.cursor.rest) :
    Selector.sequenceBy inner s = .ok false s := by
  have hpieces : repeatWhile State.size (Selector.piece inner) s = .ok () s := by
    rw [repeatWhile_apply, piece_of_colon h]
  rw [sequenceBy_of_pieces hpieces, if_neg (Nat.lt_irrefl _)]
  exact run_of_colon h

theorem sequence_of_colon (h : AtColon s.cursor.rest) : Selector.sequence s = .ok false s := by
  unfold Selector.sequence
  rw [recurse_apply]
  exact sequenceBy_of_colon h

/-- Passing white space and comments, or nothing if there are none. -/
theorem skipTrivia_apply (s : State) :
    skipTrivia s = .ok (Recognizer.trivia s.cursor.rest).isSome
      { s with cursor := s.cursor.skip Recognizer.trivia } := by
  unfold skipTrivia
  rw [passes_apply, Cursor.skip, Cursor.pass?]
  cases Recognizer.trivia s.cursor.rest <;> rfl

theorem skip_of_colon (h : AtColon s.cursor.rest) : s.cursor.skip Recognizer.trivia = s.cursor := by
  rw [Cursor.skip, Cursor.pass?, h.trivia]
  rfl

/-- No further sequence of a selector follows before the colon. -/
theorem continuation_of_colon (h : AtColon (s.cursor.skip Recognizer.trivia).rest) :
    Selector.continuation s = .ok false s := by
  have hcombinator : Selector.combinator (s.cursor.skip Recognizer.trivia).rest = none := by
    obtain ⟨x, u, hrest, _⟩ := h
    rw [hrest]
    rfl
  have hskip := skip_of_colon (s := { s with cursor := s.cursor.skip Recognizer.trivia }) h
  have hsequence := sequence_of_colon (s := { s with cursor := s.cursor.skip Recognizer.trivia }) h
  unfold Selector.continuation here moveTo
  simp only [bind_apply, get_apply, pure_apply, modify_apply, skipTrivia_apply,
    passes_of_none (s := { s with cursor := s.cursor.skip Recognizer.trivia }) hcombinator, hskip,
    hsequence, Bool.false_eq_true, if_false]

theorem alternative_of_colon (h : AtColon (s.cursor.skip Recognizer.trivia).rest) :
    Selector.alternative s = .ok false s := by
  have hcomma : char ',' (s.cursor.skip Recognizer.trivia).rest = none := by
    obtain ⟨x, u, hrest, _⟩ := h
    rw [hrest]
    rfl
  unfold Selector.alternative here moveTo
  simp only [bind_apply, get_apply, pure_apply, modify_apply, skipTrivia_apply,
    passes_of_none (s := { s with cursor := s.cursor.skip Recognizer.trivia }) hcomma,
    Bool.false_eq_true, if_false]

/-- Selectors go on up to the colon. -/
theorem SpacedName.group (h : SpacedName s) :
    ∃ v, Selector.group s = .ok () v ∧ AtColon (v.cursor.skip Recognizer.trivia).rest := by
  obtain ⟨v, hpieces, hlt, hcolon, hcombinator⟩ := h.pieces
  refine ⟨v, ?_, hcolon⟩
  have hsequence : Selector.sequence s = .ok true v := by
    unfold Selector.sequence
    rw [recurse_apply]
    exact (sequenceBy_of_pieces hpieces).trans (if_pos hlt)
  have hselector : Selector.selector s = .ok () v := by
    unfold Selector.selector
    simp only [bind_apply, passes_of_none hcombinator, hsequence, Bool.false_eq_true, if_false,
      if_true]
    rw [repeatWhile_apply, continuation_of_colon hcolon]
  unfold Selector.group
  rw [bind_apply, hselector]
  simp only
  rw [repeatWhile_apply, alternative_of_colon hcolon]

/-- **A name with a spaced colon behind it begins no ruleset**, as long as blocks begin with a
brace. -/
theorem ruleset_of_spacedName {block : Production (List Node)}
    (hblock : ∀ t : State, t.cursor.rest.head? ≠ some '{' → ∃ e, block t = .error e t)
    (h : SpacedName s) :
    ∃ e u, ruleset block s = .error e u ∧ u.options = s.options ∧ u.rollback = s.rollback := by
  obtain ⟨v, hgroup, hcolon⟩ := h.group
  obtain ⟨e, herror⟩ := hblock { v with cursor := v.cursor.skip Recognizer.trivia } (by
    obtain ⟨x, w, hrest, _⟩ := hcolon
    rw [hrest, List.head?_cons]
    decide)
  have hplain := Selector.plain_group s (.refl s.cursor)
  refine ⟨e, { v with cursor := v.cursor.skip Recognizer.trivia }, ?_,
    (hplain.of_ok hgroup).1.options, (hplain.same_of_ok hgroup).2.2⟩
  unfold ruleset Selector.groupText here
  simp only [bind_apply, get_apply, pure_apply, hgroup, skipTrivia_apply, herror]

/-- What the text begins with does not depend on the fields of blocks and attempts. -/
theorem SpacedName.reframe (h : SpacedName s) (b : Option Nat) (k : List Nat) (r : Rollback) :
    SpacedName (s.reframe b k r) := by
  obtain ⟨marked, t, v, hmark, hname, hlt, hcolon⟩ := h
  have hmark' := ((plain_passes hack s (.refl s.cursor)).of_ok hmark).2 b k r
  have hname' := ((plain_repeatWhile plain_namePiece t (.refl t.cursor)).of_ok hname).2 b k r
  exact ⟨marked, t.reframe b k r, v.reframe b k r, hmark', hname', hlt, hcolon⟩

end

end Grammar
end Stylesheet
