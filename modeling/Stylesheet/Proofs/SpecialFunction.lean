import Stylesheet.Proofs.Interpolation
import Stylesheet.Proofs.Stable

/-!
# The text of special functions

A special function such as `calc(…)` is one token.  Where it ends is found by counting parentheses,
and over interpolations by counting braces; its parts are then read by a lexer of its own, for which
a brace inside a string is a part of the string.  `special_spelling` says what follows for every
special function a lexer returns: its parts are read one behind the other from the start of the
token, and they end where the token ends exactly if the last of them is text.  Where it is an
interpolation, the two ways to find its end disagreed, and the lexer of the parts has read on past
the end of the token.
-/
namespace Stylesheet

namespace Text

/-- What is taken up to a closing parenthesis ends with it. -/
theorem closingParen?_eq_some {parens braces : Nat} {t : Text} {n : Nat}
    (h : closingParen? parens braces t = some n) :
    ∃ u v, t = u ++ ')' :: v ∧ n = u.length + 1 := by
  -- Every rule but that of the last parenthesis takes some characters and goes on behind them.
  have hstep : ∀ (front : Text) {parens braces : Nat} {t : Text} {k : Nat},
      (∀ {m}, closingParen? parens braces t = some m →
        ∃ u v, t = u ++ ')' :: v ∧ m = u.length + 1) →
      (closingParen? parens braces t).map (· + front.length) = some k →
      ∃ u v, front ++ t = u ++ ')' :: v ∧ k = u.length + 1 := by
    intro front parens braces t k ih hk
    obtain ⟨m, hm, rfl⟩ := Option.map_eq_some_iff.mp hk
    obtain ⟨u, v, rfl, rfl⟩ := ih hm
    refine ⟨front ++ u, v, by rw [List.append_assoc], ?_⟩
    rw [List.length_append]
    omega
  fun_induction closingParen? parens braces t generalizing n with
  | case1 => cases h
  | case2 _ c =>
    rename_i ih
    exact hstep [c] ih h
  | case3 _ c _ ih => exact hstep ['\\', c] ih h
  | case4 _ _ ih => exact hstep ['#', '{'] ih h
  | case5 _ _ ih => exact hstep ['('] ih h
  | case6 t =>
    cases h
    exact ⟨[], t, rfl, rfl⟩
  | case7 _ _ ih => exact hstep [')'] ih h
  | case8 _ c _ _ _ _ _ ih => exact hstep [c] ih h

/-- What is taken up to a closing parenthesis does not depend on what is behind it. -/
theorem closingParen?_take {parens braces : Nat} {t : Text} {n : Nat} (v : Text)
    (h : closingParen? parens braces t = some n) :
    0 < n ∧ n ≤ t.length ∧ closingParen? parens braces (t.take n ++ v) = some n := by
  fun_induction closingParen? parens braces t generalizing n with
  | case1 => cases h
  | case2 parens c t braces =>
    rename_i ih
    obtain ⟨m, hm, rfl⟩ := Option.map_eq_some_iff.mp h
    obtain ⟨_, hle, htake⟩ := ih hm
    refine ⟨Nat.succ_pos m, Nat.succ_le_succ hle, ?_⟩
    rw [List.take_succ_cons, List.cons_append, closingParen?, htake]
    rfl
  | case3 parens c t ih =>
    obtain ⟨m, hm, rfl⟩ := Option.map_eq_some_iff.mp h
    obtain ⟨_, hle, htake⟩ := ih hm
    refine ⟨Nat.succ_pos _, Nat.succ_le_succ (Nat.succ_le_succ hle), ?_⟩
    rw [List.take_succ_cons, List.take_succ_cons, List.cons_append, List.cons_append,
      closingParen?, htake]
    rfl
  | case4 parens t ih =>
    obtain ⟨m, hm, rfl⟩ := Option.map_eq_some_iff.mp h
    obtain ⟨_, hle, htake⟩ := ih hm
    refine ⟨Nat.succ_pos _, Nat.succ_le_succ (Nat.succ_le_succ hle), ?_⟩
    rw [List.take_succ_cons, List.take_succ_cons, List.cons_append, List.cons_append,
      closingParen?, htake]
    rfl
  | case5 parens t ih =>
    obtain ⟨m, hm, rfl⟩ := Option.map_eq_some_iff.mp h
    obtain ⟨_, hle, htake⟩ := ih hm
    refine ⟨Nat.succ_pos m, Nat.succ_le_succ hle, ?_⟩
    rw [List.take_succ_cons, List.cons_append, closingParen?, htake]
    rfl
  | case6 t =>
    cases h
    exact ⟨Nat.one_pos, Nat.succ_le_succ (Nat.zero_le _), rfl⟩
  | case7 t parens ih =>
    obtain ⟨m, hm, rfl⟩ := Option.map_eq_some_iff.mp h
    obtain ⟨_, hle, htake⟩ := ih hm
    refine ⟨Nat.succ_pos m, Nat.succ_le_succ hle, ?_⟩
    rw [List.take_succ_cons, List.cons_append, closingParen?, htake]
    rfl
  | case8 parens c t hescape hcut hopen hclose ih =>
    obtain ⟨m, hm, rfl⟩ := Option.map_eq_some_iff.mp h
    obtain ⟨hpos, hle, htake⟩ := ih hm
    refine ⟨Nat.succ_pos m, Nat.succ_le_succ hle, ?_⟩
    rw [List.take_succ_cons, List.cons_append, closingParen?, htake]
    · rfl
    · exact hopen
    · exact hclose
    · intro d w hc hw
      obtain ⟨t', rfl⟩ := exists_of_take_append hpos hle hw
      exact hescape d t' hc rfl
    · intro w hc hw
      obtain ⟨t', rfl⟩ := exists_of_take_append hpos hle hw
      exact hcut t' hc rfl

end Text

/-! ### The text of parts -/

/-- A part that was read at a place up to another, and its text.  That of an interpolation has its
braces around what its tokens were read from. -/
inductive Piece.Spelt (c : Cursor) : Piece → Text → Cursor → Prop
  | raw (t rest : Text) (text : c.rest = t ++ rest) : Spelt c (.raw t) t (c.advance t.length)
  | interpolation (body rest : Text) (tokens : List Token) (l m : Lexer)
      (text : c.rest = '#' :: '{' :: (body ++ '}' :: rest))
      (place : l.cursor = c.advance 2) (fresh : l.lookahead = none)
      (read : l.interpolation = .ok tokens m) (behind : m.cursor = c.advance (body.length + 3)) :
      Spelt c (.interpolation tokens) ('#' :: '{' :: (body ++ ['}'])) m.cursor

/-- Parts read one behind the other, and their texts. -/
inductive Spelling : Cursor → List Piece → List Text → Cursor → Prop
  | nil (c : Cursor) : Spelling c [] [] c
  | cons {c d e : Cursor} {p : Piece} {ps : List Piece} {t : Text} {ts : List Text}
      (first : p.Spelt c t d) (others : Spelling d ps ts e) : Spelling c (p :: ps) (t :: ts) e

/-- An escape, or a character that starts none. -/
def Text.IsUnit (t : Text) : Prop :=
  (∃ x, t = ['\\', x]) ∨ ∃ x, x ≠ '\\' ∧ t = [x]

/-- Whether a part is text. -/
def Piece.isRaw : Piece → Bool
  | raw _ => true
  | interpolation _ => false

/-- Whether the last of some parts is text. -/
def Piece.endsRaw (ps : List Piece) : Bool :=
  ps.getLast?.any isRaw

/-- The parts of a special function. -/
def Token.pieces? (t : Token) : Option (List Piece) :=
  match t.kind with
  | .special ps => some ps
  | _ => none

theorem Token.kind_of_pieces? {t : Token} {ps : List Piece} (h : t.pieces? = some ps) :
    t.kind = .special ps := by
  unfold pieces? at h
  split at h
  · next hkind => rw [hkind, Option.some.inj h]
  · cases h

theorem Piece.Spelt.text_eq {c d : Cursor} {p : Piece} {t : Text} (h : p.Spelt c t d) :
    d = c.advance t.length ∧ c.rest = t ++ d.rest := by
  cases h with
  | raw _ rest htext => exact ⟨rfl, by rw [Cursor.rest_advance_append htext, htext]⟩
  | interpolation body rest tokens l m htext _ _ _ hbehind =>
    have hlength : ('#' :: '{' :: (body ++ ['}'])).length = body.length + 3 := by simp
    have hsplit : c.rest = ('#' :: '{' :: (body ++ ['}'])) ++ rest := by simp [htext]
    refine ⟨by rw [hbehind, hlength], ?_⟩
    rw [hbehind, ← hlength, Cursor.rest_advance_append hsplit, hsplit]

/-- Text that is kept is what stands at its place. -/
theorem Piece.spelt_take (c : Cursor) (n : Nat) :
    (Piece.raw (c.rest.take n)).Spelt c (c.rest.take n) (c.advance n) := by
  have htext :=
    Piece.Spelt.raw (c := c) (c.rest.take n) (c.rest.drop n) (List.take_append_drop n _).symm
  rwa [List.length_take, Cursor.advance_min] at htext

theorem Piece.Spelt.three_le_length {c d : Cursor} {tokens : List Token} {t : Text}
    (h : (Piece.interpolation tokens).Spelt c t d) : 3 ≤ t.length := by
  cases h
  simp

namespace Spelling
variable {c d e : Cursor} {ps qs : List Piece} {ts us : List Text}

/-- Parts have the texts they were read from, and nothing between them. -/
theorem text_eq (h : Spelling c ps ts d) :
    d = c.advance ts.flatten.length ∧ c.rest = ts.flatten ++ d.rest := by
  induction h with
  | nil c => exact ⟨(Cursor.advance_zero c).symm, rfl⟩
  | cons first _ ih =>
    obtain ⟨rfl, hfirst⟩ := first.text_eq
    obtain ⟨hend, hothers⟩ := ih
    refine ⟨?_, ?_⟩
    · rw [List.flatten_cons, List.length_append, ← Cursor.advance_advance]
      exact hend
    · rw [List.flatten_cons, List.append_assoc, ← hothers, ← hfirst]

theorem flatten_eq (h : Spelling c ps ts d) : ts.flatten = d.textSince c := by
  obtain ⟨hd, hrest⟩ := h.text_eq
  rw [hd, Cursor.textSince_advance, hrest, List.take_left]

theorem before (h : Spelling c ps ts d) : c.Before d :=
  ⟨_, h.text_eq.1⟩

theorem append (h : Spelling c ps ts d) (h' : Spelling d qs us e) :
    Spelling c (ps ++ qs) (ts ++ us) e := by
  induction h with
  | nil => exact h'
  | cons first _ ih => exact .cons first (ih h')

/-- Text that goes on is one part. -/
theorem join (h : Spelling c ps ts d) : ∃ us, Spelling c (Piece.join ps) us d := by
  induction h with
  | nil c => exact ⟨[], .nil c⟩
  | @cons c d e p ps t ts first others ih =>
    obtain ⟨us, hus⟩ := ih
    cases first with
    | interpolation body rest tokens l m text place fresh read behind =>
      exact ⟨_, .cons (.interpolation body rest tokens l m text place fresh read behind) hus⟩
    | raw t rest text =>
      unfold Piece.join
      split
      · next u qs hjoin =>
        rw [hjoin] at hus
        cases hus with
        | cons second others =>
          cases second with
          | raw _ rest' text' =>
            rw [Cursor.rest_advance_append text] at text'
            rw [Cursor.advance_advance, ← List.length_append] at others
            exact ⟨_, .cons (.raw (t ++ u) rest' (by rw [text, text', List.append_assoc])) others⟩
      · exact ⟨_, .cons (.raw t rest text) hus⟩

end Spelling

theorem Piece.endsRaw_cons (p : Piece) {ps : List Piece} (h : ps ≠ []) :
    endsRaw (p :: ps) = endsRaw ps := by
  rw [endsRaw, endsRaw, List.getLast?_cons_of_ne_nil h]

theorem Piece.join_eq_nil {ps : List Piece} : Piece.join ps = [] ↔ ps = [] := by
  cases ps with
  | nil => simp [Piece.join]
  | cons p ps =>
    cases p with
    | interpolation ts => simp [Piece.join]
    | raw t =>
      unfold Piece.join
      split <;> simp

theorem Piece.endsRaw_join (ps : List Piece) : endsRaw (Piece.join ps) = endsRaw ps := by
  have hcons : ∀ (p : Piece) (ps : List Piece), endsRaw (Piece.join ps) = endsRaw ps →
      endsRaw (p :: Piece.join ps) = endsRaw (p :: ps) := by
    intro p ps ih
    by_cases hps : ps = []
    · rw [hps]
      rfl
    · rw [endsRaw_cons p (mt Piece.join_eq_nil.mp hps), endsRaw_cons p hps, ih]
  induction ps with
  | nil => rfl
  | cons p ps ih =>
    cases p with
    | interpolation ts => exact hcons (.interpolation ts) ps ih
    | raw t =>
      have hraw := hcons (.raw t) ps ih
      unfold Piece.join
      split
      · next u qs hjoin =>
        rw [hjoin] at hraw
        rw [← hraw, endsRaw_cons _ (List.cons_ne_nil _ _)]
        cases qs with
        | nil => rfl
        | cons q qs =>
          rw [endsRaw_cons _ (List.cons_ne_nil _ _), endsRaw_cons _ (List.cons_ne_nil _ _)]
      · exact hraw

/-! ### Reading parts -/

namespace Lexer

/-- What an interpolation of a special function takes is its tokens between braces. -/
theorem spelt_interpolation {l m : Lexer} {rest : Text} {tokens : List Token}
    (hahead : l.lookahead = none) (hrest : l.cursor.rest = '#' :: '{' :: rest)
    (hrun : interpolation { l with cursor := l.cursor.advance 2 } = .ok tokens m) :
    ∃ text, (Piece.interpolation tokens).Spelt l.cursor text m.cursor ∧ m.lookahead = none ∧
      m.cursor.past.head? = some '}' := by
  obtain ⟨k, hk⟩ : ∃ k : Lexer, k = { l with cursor := l.cursor.advance 2 } := ⟨_, rfl⟩
  have hkcursor : k.cursor = l.cursor.advance 2 := by rw [hk]
  have hkahead : k.lookahead = none := by rw [hk]; exact hahead
  rw [← hk] at hrun
  have hread := hrun
  rw [interpolation_eq] at hrun
  obtain ⟨_, n, behind, hn, hnrun, hclose, rfl⟩ := (ends_interpolated hkahead .start).of_ok hrun
  have hsound := hnrun.sound hkahead
  obtain ⟨body, hbody, hplace⟩ := (hsound.front.trans hsound.cursor).exists_text
  rw [hkcursor] at hbody hplace
  have hfront : (l.cursor.advance 2).rest = rest := by rw [Cursor.rest_advance, hrest]; rfl
  have htext : l.cursor.rest = '#' :: '{' :: (body ++ '}' :: behind) := by
    rw [hrest, ← hfront, ← hclose]
    exact congrArg (fun t => '#' :: '{' :: t) hbody
  have hend : n.cursor.advance 1 = l.cursor.advance (body.length + 3) := by
    rw [hplace]
    simp only [Cursor.advance_advance]
    congr 1
    omega
  refine ⟨_, .interpolation body behind tokens k _ htext hkcursor hkahead hread hend, hn, ?_⟩
  show (n.cursor.advance 1).past.head? = some '}'
  simp [Cursor.advance, hclose]

/-- Text is kept by the escape or the character. -/
theorem Rules.isUnit_take {t : Text} {k : Nat} (hraw : rawLength? t = some k)
    (hlength : k ≤ t.length) : Text.IsUnit (t.take k) := by
  unfold rawLength? at hraw
  split at hraw
  · next u =>
    cases hraw
    cases u with
    | nil => exact absurd hlength (by decide)
    | cons x u => exact .inl ⟨x, rfl⟩
  · cases hraw
  · next hescape _ =>
    cases hraw
    cases t with
    | nil => exact absurd hlength (by decide)
    | cons x u =>
      refine .inr ⟨x, ?_, rfl⟩
      rintro rfl
      exact hescape u rfl

/-- Text that is kept never goes past a closing parenthesis. -/
theorem before_raw {c stop : Cursor} (h : c.Before stop) (hne : c ≠ stop)
    (hparen : stop.past.head? = some ')') {k : Nat} (hraw : Rules.rawLength? c.rest = some k) :
    0 < k ∧ k ≤ c.rest.length ∧ (c.advance k).Before stop := by
  obtain ⟨w, hw, hend⟩ := h.exists_text
  obtain ⟨w', rfl⟩ : ∃ w', w = w' ++ [')'] := by
    rcases List.eq_nil_or_concat w with rfl | ⟨w', x, rfl⟩
    · exact absurd (hend.trans (Cursor.advance_zero c)).symm hne
    · have hpast : stop.past = (w'.concat x).reverse ++ c.past := by
        rw [hend]
        show (c.rest.take _).reverse ++ c.past = _
        rw [hw, List.take_left]
      rw [hpast, List.concat_eq_append, List.reverse_append] at hparen
      cases hparen
      exact ⟨w', List.concat_eq_append⟩
  have hlength : 0 < k ∧ k ≤ (w' ++ [')']).length := by
    unfold Rules.rawLength? at hraw
    split at hraw
    · next escaped hescape =>
      cases hraw
      cases w' with
      | nil =>
        rw [hescape] at hw
        cases hw
      | cons x w' => simp
    · cases hraw
    · cases hraw
      simp
  refine ⟨hlength.1, ?_, (w' ++ [')']).length - k, ?_⟩
  · have := congrArg List.length hw
    rw [List.length_append] at this
    omega
  · rw [Cursor.advance_advance, Nat.add_sub_cancel' hlength.2, ← hend]

/-- What is known of a lexer that has read some parts on the way to a place: it does not go past the
place with text, and does not come to stand there with an interpolation. -/
structure PartsTo (body stop : Cursor) (found : List Piece) (m : Lexer) : Prop where
  fresh : m.lookahead = none
  spelt : ∃ texts, Spelling body found texts m.cursor
  raw : Piece.endsRaw found = true → m.cursor.Before stop
  interpolation : found ≠ [] → Piece.endsRaw found = false → m.cursor ≠ stop

section
variable {body stop : Cursor} {found : List Piece} {m : Lexer}

theorem PartsTo.before (h : PartsTo body stop found m) : body.Before m.cursor := by
  obtain ⟨_, hspelling⟩ := h.spelt
  exact hspelling.before

/-- Parts that reach the place end there exactly if the last of them is text. -/
theorem PartsTo.reached (h : PartsTo body stop found m) (hstop : body.Before stop)
    (hne : body ≠ stop) (hend : stop.offset ≤ m.cursor.offset) :
    found ≠ [] ∧ stop.Before m.cursor ∧ (m.cursor = stop ↔ Piece.endsRaw found = true) := by
  have hfound : found ≠ [] := by
    rintro rfl
    obtain ⟨texts, hspelling⟩ := h.spelt
    cases hspelling
    exact hne (hstop.eq_of_offset_le hend)
  have hover : stop.Before m.cursor := by
    rcases h.before.total hstop with hm | hm
    · rw [hm.eq_of_offset_le hend]
      exact .refl stop
    · exact hm
  refine ⟨hfound, hover, fun hm => ?_, fun hraw => (h.raw hraw).eq_of_offset_le hend⟩
  exact Decidable.byContradiction fun hraw =>
    h.interpolation hfound (Bool.eq_false_iff.mpr hraw) hm

/-- Text that is kept is one more part, and less is left to read. -/
theorem PartsTo.text (h : PartsTo body stop found m) (hahead : m.cursor.Before stop)
    (hne : m.cursor ≠ stop) (hparen : stop.past.head? = some ')') {k : Nat}
    (hraw : Rules.rawLength? m.cursor.rest = some k) :
    { m with cursor := m.cursor.advance k }.size < m.size ∧
      PartsTo body stop (found ++ [.raw (m.cursor.rest.take k)])
        { m with cursor := m.cursor.advance k } := by
  obtain ⟨hk, hlength, hbefore⟩ := before_raw hahead hne hparen hraw
  obtain ⟨texts, hspelling⟩ := h.spelt
  have hspelt := Piece.spelt_take m.cursor k
  have hends : Piece.endsRaw (found ++ [.raw (m.cursor.rest.take k)]) = true := by
    rw [Piece.endsRaw, List.getLast?_concat]
    rfl
  refine ⟨?_, h.fresh, ⟨_, hspelling.append (.cons hspelt (.nil _))⟩, fun _ => hbefore, ?_⟩
  · have hleft := m.cursor.left_eq
    rw [size, size, front_of_lookahead h.fresh,
      front_of_lookahead (l := { m with cursor := m.cursor.advance k }) h.fresh]
    show 2 * (m.cursor.left - k) + (if m.pending.isSome then 1 else 0) < _
    omega
  · intro _ hno
    rw [hends] at hno
    cases hno

/-- An interpolation is one more part, and less is left to read.  It ends with a brace, so not where
a parenthesis does. -/
theorem PartsTo.read (h : PartsTo body stop found m) (hparen : stop.past.head? = some ')')
    (hraw : Rules.rawLength? m.cursor.rest = none) {tokens : List Token} {k : Lexer}
    (hrun : Lexer.interpolation { m with cursor := m.cursor.advance 2 } = .ok tokens k) :
    k.size < m.size ∧ PartsTo body stop (found ++ [.interpolation tokens]) k := by
  obtain ⟨rest, hrest⟩ := Rules.rawLength?_eq_none hraw
  obtain ⟨text, hspelt, hfresh, hbrace⟩ := spelt_interpolation h.fresh hrest hrun
  obtain ⟨texts, hspelling⟩ := h.spelt
  have hends : Piece.endsRaw (found ++ [.interpolation tokens]) = false := by
    rw [Piece.endsRaw, List.getLast?_concat]
    rfl
  refine ⟨?_, hfresh, ⟨_, hspelling.append (.cons hspelt (.nil _))⟩, ?_, fun _ _ hstop => ?_⟩
  · have hlength := hspelt.three_le_length
    have hbehind := congrArg List.length hspelt.text_eq.2
    rw [List.length_append, ← m.cursor.left_eq, ← k.cursor.left_eq] at hbehind
    have hone := pending_toNat_le k
    rw [size, size, front_of_lookahead h.fresh, front_of_lookahead hfresh]
    omega
  · intro hyes
    rw [hends] at hyes
    cases hyes
  · rw [hstop, hparen] at hbrace
    cases hbrace

end

/-- **What one round comes to.**  Either the place is reached, or one more part is read, and less is
left to read.  Text is read by the escape or the character. -/
theorem ends_piece {body stop : Cursor} (hstop : body.Before stop)
    (hparen : stop.past.head? = some ')') {found : List Piece} {m : Lexer}
    (hparts : PartsTo body stop found m) :
    Ends (Rules.piece interpolation stop) m
      (fun r k => match r.2 with
        | none => r.1 = [] ∧ k = m ∧ stop.offset ≤ m.cursor.offset
        | some _ => k.size < m.size ∧ PartsTo body stop (found ++ r.1) k ∧
            ∀ text, .raw text ∈ r.1 → text.IsUnit)
      (fun _ _ => True) := by
  unfold Ends Rules.piece
  by_cases hend : stop.offset ≤ m.cursor.offset
  · rw [if_pos hend]
    exact ⟨rfl, rfl, hend⟩
  · rw [if_neg hend]
    have hahead : m.cursor.Before stop := by
      rcases hparts.before.total hstop with h | h
      · exact h
      · exact absurd h.offset_le hend
    have hne : m.cursor ≠ stop := fun h => hend (Nat.le_of_eq (by rw [h]))
    cases hraw : Rules.rawLength? m.cursor.rest with
    | some k =>
      obtain ⟨hsize, htext⟩ := hparts.text hahead hne hparen hraw
      refine ⟨hsize, htext, fun text hmem => ?_⟩
      cases List.mem_singleton.mp hmem
      exact Rules.isUnit_take hraw (before_raw hahead hne hparen hraw).2.1
    | none =>
      simp only
      cases hrun : interpolation { m with cursor := m.cursor.advance 2 } with
      | error e k => trivial
      | ok tokens k =>
        obtain ⟨hsize, hread⟩ := hparts.read hparen hraw hrun
        refine ⟨hsize, hread, fun text hmem => ?_⟩
        cases List.mem_singleton.mp hmem

/-- **How the parts of a special function are read.**  They are read from the start of the body, at
least to where it ends, and exactly to there if the last of them is text. -/
theorem ends_pieces {body stop : Cursor} (hstop : body.Before stop) (hne : body ≠ stop)
    (hparen : stop.past.head? = some ')') (options : Options) :
    Ends (Rules.pieces interpolation stop) (ofCursor body options)
      (fun parts m => parts ≠ [] ∧ stop.Before m.cursor ∧
        (m.cursor = stop ↔ Piece.endsRaw parts = true) ∧
        ∃ texts, Spelling body parts texts m.cursor)
      (fun _ _ => True) := by
  have hstart : PartsTo body stop [] (ofCursor body options) :=
    ⟨rfl, ⟨[], .nil body⟩, nofun, fun h => absurd rfl h⟩
  rw [Rules.pieces_eq]
  refine Ends.unfold (fun found _ m => PartsTo body stop found m) ?_ hstart
  intro found _ m hparts
  refine (ends_piece hstop hparen hparts).mono ?_ fun _ _ _ => trivial
  rintro ⟨now, next⟩ k hround
  cases next with
  | none =>
    obtain ⟨rfl, rfl, hend⟩ := hround
    obtain ⟨hfound, hover, hstands⟩ := hparts.reached hstop hne hend
    simp only [List.append_nil]
    exact ⟨hfound, hover, hstands, hparts.spelt⟩
  | some _ =>
    obtain ⟨hsize, hread, -⟩ := hround
    simp only [if_pos hsize]
    exact hread

/-! ### Special functions -/

/-- **The parts of a special function and its text.**  Whatever was asked of a lexer before, a
special function it returns begins at `start`, and behind the text up to its opening parenthesis its
parts were read by the lexer `inner`.  The texts of its parts follow one another from `start` to
where `inner` stands, which is not before the end of the token.  They make up the text of the token,
and `inner` stands at its end, exactly if the last part is text. -/
theorem special_spelling {c : Cursor} {options : Options} {calls : List Call}
    {t : Token} {m : Lexer} {ps : List Piece}
    (hnext : ((ofCursor c options).after calls).next = .ok (some t) m)
    (hkind : t.kind = .special ps) :
    ∃ (start : Cursor) (head : Nat) (parts : List Piece) (inner : Lexer) (texts : List Text),
      c.Before start ∧ t.location = start.location ∧ m.cursor = m.previousEnd ∧
      Rules.pieces interpolation m.previousEnd (ofCursor (start.advance head) options) =
        .ok parts inner ∧
      ps = Piece.join (.raw (start.rest.take head) :: parts) ∧
      Spelling start ps texts inner.cursor ∧
      start.Before m.previousEnd ∧ m.previousEnd.Before inner.cursor ∧
      (inner.cursor = m.previousEnd ↔ Piece.endsRaw ps = true) ∧
      (texts.flatten = m.previousEnd.textSince start ↔ Piece.endsRaw ps = true) := by
  obtain ⟨ts, hrun⟩ : ∃ ts, Run interpolation (ofCursor c options) ts _ := run_after rfl calls
  obtain ⟨n, ahead, hn, _, hview, rfl, rfl⟩ := (ends_next hrun).of_ok hnext
  have hsound := hn.sound rfl
  have htoken := hsound.view ahead hview
  have hplace : c.Before ahead.start := by
    have hfront := hsound.front
    rwa [front, hview] at hfront
  rw [previousEnd_consume, cursor_consume]
  generalize n.cursor = stop at htoken ⊢
  cases htoken with
  | segment d q x _ found =>
    obtain ⟨⟨v, hx⟩, _⟩ := Lexeme.segment?_eq_some found
    cases hx.symm.trans hkind
  | lexeme d x _ found => exact absurd hkind ((Lexeme.found_of_at? found).kind_ne_special ps)
  | special d head body parts inner _ begins balanced read =>
    cases hkind
    have hoptions : n.options = options := hsound.options
    rw [hoptions] at read
    obtain ⟨u, v, hrest, rfl⟩ := Text.closingParen?_eq_some balanced
    obtain ⟨hne, hover, hstands, texts, hspelling⟩ :=
      (ends_pieces (Cursor.before_advance (u.length + 1) _) (Cursor.advance_ne hrest)
        (Cursor.past_advance_head? hrest) options).of_ok read
    have hhead : (Piece.raw (d.rest.take head)).Spelt d (d.rest.take head) (d.advance head) := by
      have h := Piece.Spelt.raw (c := d) (d.rest.take head) (d.rest.drop head)
        (List.take_append_drop head _).symm
      rwa [List.length_take, Cursor.advance_min] at h
    obtain ⟨us, hus⟩ := (Spelling.cons hhead hspelling).join
    have hraw : Piece.endsRaw (Piece.join (.raw (d.rest.take head) :: parts)) =
        Piece.endsRaw parts := by
      rw [Piece.endsRaw_join, Piece.endsRaw_cons _ hne]
    have hstop : d.Before ((d.advance head).advance (u.length + 1)) :=
      (Cursor.before_advance head d).advance _
    refine ⟨d, head, parts, inner, us, hplace, rfl, rfl, read, rfl, hus, hstop, hover, ?_, ?_⟩
    · rw [hraw, hstands]
    · rw [hraw, ← hstands, hus.flatten_eq]
      exact ⟨fun h => hus.before.eq_of_textSince hstop h, fun h => by rw [h]⟩

theorem special_spelling_calc :
    ∃ (t : Token) (m : Lexer) (ps : List Piece) (start : Cursor) (texts : List Text),
      ((ofText "-moz-calc(#\x7b$a\x7d + 1) 2".toList 1 0 {}).after [.peek, .isDone]).next =
        .ok (some t) m ∧
      t.kind = .special ps ∧ t.location = start.location ∧ Spelling start ps texts m.previousEnd ∧
      texts.flatten = m.previousEnd.textSince start := by
  obtain ⟨found, m, hnext, htest⟩ := exists_of_answers
    (r := ((ofText "-moz-calc(#\x7b$a\x7d + 1) 2".toList 1 0 {}).after [.peek, .isDone]).next)
    (p := fun found _ => (found.bind Token.pieces?).any Piece.endsRaw) (by decide +kernel)
  obtain ⟨ps, hbind, hraw⟩ := (Option.any_eq_true _ _).mp htest
  obtain ⟨t, rfl, hps⟩ := Option.bind_eq_some_iff.mp hbind
  obtain ⟨start, _, _, inner, texts, _, hplace, _, _, _, hspelling, _, _, hstands, htext⟩ :=
    special_spelling hnext (Token.kind_of_pieces? hps)
  rw [hstands.mpr hraw] at hspelling
  exact ⟨t, m, ps, start, texts, hnext, Token.kind_of_pieces? hps, hplace, hspelling,
    htext.mpr hraw⟩

/-- The count of braces ends an interpolation inside a string, and the function with it.  The lexer
of the parts goes on to the real end of the string. -/
theorem special_cut_in_string :
    ∃ (t : Token) (m inner : Lexer) (parts : List Piece),
      (ofText "calc(#\x7b\"\x7d)\"\x7d)".toList 1 0 {}).next = .ok (some t) m ∧
      Rules.pieces interpolation m.previousEnd
        (ofCursor ((Cursor.start "calc(#\x7b\"\x7d)\"\x7d)".toList 1 0).advance 5) {}) =
          .ok parts inner ∧
      t.kind = .special (Piece.join (.raw "calc(".toList :: parts)) ∧
      m.previousEnd.consumed = "calc(#\x7b\"\x7d)".toList ∧
      inner.cursor.consumed = "calc(#\x7b\"\x7d)\"\x7d".toList := by
  obtain ⟨found, m, hnext, hfound⟩ := exists_of_answers
    (r := (ofText "calc(#\x7b\"\x7d)\"\x7d)".toList 1 0 {}).next)
    (p := fun found m => answers (Rules.pieces interpolation m.previousEnd
      (ofCursor ((Cursor.start "calc(#\x7b\"\x7d)\"\x7d)".toList 1 0).advance 5) {}))
      fun parts inner =>
        found.map Token.kind = some (.special (Piece.join (.raw "calc(".toList :: parts))) ∧
          m.previousEnd.consumed = "calc(#\x7b\"\x7d)".toList ∧
          inner.cursor.consumed = "calc(#\x7b\"\x7d)\"\x7d".toList) (by decide +kernel)
  obtain ⟨parts, inner, hpieces, hparts⟩ := exists_of_answers hfound
  obtain ⟨hkind, hstop, hinner⟩ := of_decide_eq_true hparts
  obtain ⟨t, rfl, hspecial⟩ := Option.map_eq_some_iff.mp hkind
  exact ⟨t, m, inner, parts, hnext, hpieces, hspecial, hstop, hinner⟩

end Lexer
end Stylesheet
