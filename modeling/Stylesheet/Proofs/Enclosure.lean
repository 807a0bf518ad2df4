import Stylesheet.Proofs.FreshStart
import Stylesheet.Proofs.Session

/-!
# An interpolation from outside and from inside

The body of an interpolation can be read by a lexer that came through its `#{`, or by one that
starts right behind.  The first has one interpolation more on its stack than the second, at the
bottom and all the time (`Encloses`).  That makes a difference only where the second has none and a
brace comes next: what closes the interpolation for the one is a brace of the stylesheet for the
other (`next_encloses`).  So the one gives the closing right where the other stops, and the tokens
before are the same (`consumes_iff_interpolation`).
-/
namespace Stylesheet

namespace Lexeme

/-- Only a closing brace is another token inside of an interpolation. -/
theorem at?_eq_inside {t : Text} (h : t.head? ≠ some '}') (inside : Bool) :
    at? inside t = at? true t := by
  have hsymbol : symbol? inside t = symbol? true t := by
    unfold symbol?
    refine Option.map_congr fun o ho => ?_
    have hfront : o.text.toList <+: t :=
      List.isPrefixOf_iff_prefix.mp (List.find?_some
        (p := fun op : Op => op.text.toList.isPrefixOf t) ho)
    have hother : o ≠ .closeBrace := by
      rintro rfl
      obtain ⟨u, rfl⟩ := hfront
      exact h rfl
    simp only [hother, false_and, if_false]
  unfold at? trailing?
  rw [hsymbol]

end Lexeme

namespace Lexer

/-! ### One interpolation more -/

/-- A lexer with one interpolation more around those that it has open. -/
def within (l : Lexer) : Lexer :=
  { l with interpolations := l.interpolations ++ [none] }

variable {l m n : Lexer} {t : Token} {ts us : List Token}

theorem inside_within (l : Lexer) : decide (0 < l.within.depth) = true := by
  refine decide_eq_true ?_
  show 0 < (l.interpolations ++ [none]).length
  rw [List.length_append]
  exact Nat.succ_pos _

/-- A token means the same to both, unless it closes the interpolation that only one of them has. -/
theorem note_within (h : t.kind = .op .closeInterpolation → 0 < l.depth) :
    l.within.note t = (l.note t).within := by
  by_cases hclose : t.kind = .op .closeInterpolation
  · obtain ⟨around, outer, hopen⟩ := List.length_pos_iff_exists_cons.mp (h hclose)
    have hmore : l.within.interpolations = around :: (outer ++ [none]) := by
      rw [within, hopen]
      rfl
    rw [note_close hclose hopen, note_close hclose hmore]
    rfl
  · unfold note warn push within
    dsimp only
    split
    · split <;> rfl
    · next hkind => exact absurd hkind hclose
    · split <;> rfl
    · rfl

theorem consume_within {ahead : Lookahead}
    (h : ahead.token.kind = .op .closeInterpolation → 0 < l.depth) :
    l.within.consume ahead = (l.consume ahead).within := by
  unfold consume
  rw [note_within h]
  cases ahead.opens <;> rfl

/-- Whether what comes next is the same token with an interpolation around as without. -/
def ReadsAlike (l : Lexer) : Prop :=
  l.pending = none →
    Lexeme.at? (0 < l.depth) l.tokenStart.rest = Lexeme.at? true l.tokenStart.rest

/-- Only a brace outside of all interpolations is not the same. -/
theorem brace_of_not_readsAlike (h : ¬ l.ReadsAlike) :
    l.pending = none ∧ l.depth = 0 ∧ ∃ u, l.tokenStart.rest = '}' :: u := by
  obtain ⟨hpending, hne⟩ := Classical.not_imp.mp h
  refine ⟨hpending, Nat.eq_zero_of_not_pos fun hpos => hne ?_, ?_⟩
  · rw [decide_eq_true hpos]
  · refine List.head?_eq_some_iff.mp (Decidable.byContradiction fun hhead => hne ?_)
    exact Lexeme.at?_eq_inside hhead _

section
variable {p : LexM (List Token)}

theorem matched_token_within
    (h : Lexeme.at? (0 < l.depth) l.cursor.rest = Lexeme.at? true l.cursor.rest) :
    Matched (fun m n => n = m.within) Eq Eq (Rules.token p l)
      (Rules.token p l.within) := by
  have hcursor : l.within.cursor = l.cursor := rfl
  have hoptions : l.within.options = l.options := rfl
  simp only [Rules.token_apply, inside_within, hcursor, h]
  cases Lexeme.at? true l.cursor.rest with
  | some x => exact .ok rfl rfl
  | none =>
    cases Recognizer.specialHead l.cursor.rest with
    | none => exact .error rfl rfl
    | some head =>
      simp only [Rules.special_apply, hcursor, hoptions]
      cases (l.cursor.advance head).rest.balancedLength? with
      | none => exact .error rfl rfl
      | some k =>
        simp only
        cases Rules.pieces p ((l.cursor.advance head).advance k)
          (.ofCursor (l.cursor.advance head) l.options) with
        | ok parts inner => exact .ok rfl rfl
        | error e inner => exact .error rfl rfl

theorem matched_read_within (h : l.ReadsAlike) :
    Matched (fun m n => n = m.within) Eq Eq (Rules.read p l)
      (Rules.read p l.within) := by
  rw [Rules.read_apply, Rules.read_apply, show l.within.pending = l.pending from rfl,
    show l.within.cursor = l.cursor from rfl,
    show l.within.skipTrivia = l.skipTrivia.within from rfl,
    show l.skipTrivia.within.cursor = l.skipTrivia.cursor from rfl]
  cases hpending : l.pending with
  | some q =>
    simp only
    cases Lexeme.segment? q l.cursor.rest with
    | some x => exact .ok rfl rfl
    | none => exact .error rfl rfl
  | none =>
    have halike := h hpending
    rw [tokenStart_of_pending_none hpending, ← (moved_skipTrivia l).depth] at halike
    cases l.skipTrivia.cursor.atEnd with
    | true => exact .ok rfl rfl
    | false =>
      have hrun := matched_token_within (p := p) halike
      simp only [Bool.false_eq_true, if_false]
      generalize Rules.token p l.skipTrivia = r,
        Rules.token p l.skipTrivia.within = r' at hrun ⊢
      cases hrun with
      | error errors states => exact .error errors states
      | ok answers states => exact .ok (congrArg some answers) (by rw [states]; rfl)

theorem matched_next_within (hfresh : l.lookahead = none) (h : l.ReadsAlike) :
    Matched (fun m n => n = m.within) Eq Eq (Rules.next p l)
      (Rules.next p l.within) := by
  have hrun := matched_read_within (p := p) h
  have hread := Rules.ends_read p l
  unfold Ends at hread
  rw [Rules.next_apply, Rules.next_apply, hfresh, show l.within.lookahead = none from hfresh]
  simp only
  generalize Rules.read p l = r, Rules.read p l.within = r' at hrun hread ⊢
  cases hrun with
  | error errors states => exact .error errors states
  | @ok found found' m m' answers states =>
    subst answers states
    cases found with
    | none => exact .ok rfl rfl
    | some ahead =>
      obtain ⟨hmoved, -, htoken⟩ := hread
      refine .ok rfl (consume_within fun hclose => ?_)
      rw [hmoved.depth]
      exact ((brace_of_tokenAt htoken).1.mp hclose).2.2

end

/-! ### From outside and from inside -/

/-- The second lexer is where the first one is, with one interpolation more around. It may have seen
other tokens before. -/
def Encloses (inner outer : Lexer) : Prop :=
  Leftover [] inner.within outer

section
variable {inner outer : Lexer} (h : Encloses inner outer)
include h

theorem Encloses.fresh (hfresh : inner.lookahead = none) : outer.lookahead = none :=
  h.lookahead.trans hfresh

theorem Encloses.pending_eq : outer.pending = inner.pending :=
  h.pending

theorem Encloses.inside : 0 < outer.depth := by
  rw [h.depth]
  exact of_decide_eq_true (inside_within inner)

theorem Encloses.tokenStart_eq : outer.tokenStart = inner.tokenStart := by
  rw [tokenStart, h.pending, h.cursor, h.skipTrivia.cursor]
  rfl

/-- Both give the same token, unless the second closes the interpolation that the first does not
have. -/
theorem Encloses.next (hfresh : inner.lookahead = none) (halike : inner.ReadsAlike) :
    Matched Encloses Eq Eq inner.next outer.next := by
  have hfirst := matched_next_within (p := interpolation) hfresh halike
  have hsecond := simulates_next_leftover interpolation _ _ h
  unfold Lexer.next
  generalize Rules.next interpolation inner = r, Rules.next interpolation inner.within = r',
    Rules.next interpolation outer = r'' at hfirst hsecond ⊢
  cases hfirst with
  | ok answers states =>
    subst answers states
    cases hsecond with
    | ok answers states => exact .ok answers states
  | error errors states =>
    subst errors states
    cases hsecond with
    | error errors states => exact .error errors states

theorem Encloses.next_outer (hfresh : inner.lookahead = none) (halike : inner.ReadsAlike)
    (hnext : inner.next = .ok (some t) m) : ∃ n, outer.next = .ok (some t) n ∧ Encloses m n := by
  have hsame := h.next hfresh halike
  rw [hnext] at hsame
  generalize outer.next = r at hsame ⊢
  cases hsame with
  | ok answers states =>
    subst answers
    exact ⟨_, rfl, states⟩

theorem Encloses.next_inner (hfresh : inner.lookahead = none) (halike : inner.ReadsAlike)
    (hnext : outer.next = .ok (some t) n) : ∃ m, inner.next = .ok (some t) m ∧ Encloses m n := by
  have hsame := h.next hfresh halike
  rw [hnext] at hsame
  generalize inner.next = r at hsame ⊢
  cases hsame with
  | ok answers states =>
    subst answers
    exact ⟨_, rfl, states⟩

end

/-! ### Loops -/

/-- A round of a loop where a token comes next. -/
theorem round_of_read {β : Type} {ahead : Lookahead} (hfresh : l.lookahead = none)
    (hread : Rules.read interpolation l = .ok (some ahead) m) (go : β → Token → Option β) (b : β) :
    Rules.round interpolation go b l =
      match go b ahead.token with
      | none => .ok ([], none) { m with lookahead := some ahead }
      | some b' => .ok ([ahead.token], some b') (m.consume ahead) := by
  have hdone : (l.pending.isNone && l.tokenStart.atEnd) = false := by
    refine Bool.eq_false_iff.mpr fun hdone => ?_
    obtain ⟨hpending, hend⟩ := Bool.and_eq_true_iff.mp hdone
    have hnone := Option.isNone_iff_eq_none.mp hpending
    rw [tokenStart_of_pending_none hnone] at hend
    rw [Rules.read_apply, hnone] at hread
    simp only [hend, if_true] at hread
    cases hread
  unfold Rules.round
  simp only [bind_apply, isDone_of_fresh hfresh, hdone, Bool.false_eq_true, if_false,
    Rules.peek_apply, show l.atToken.lookahead = none from hfresh, read_atToken, hread,
    Option.map_some]
  cases go b ahead.token with
  | none => rfl
  | some b' =>
    simp only [bind_apply, Rules.next_apply, consume_view, Option.toList_some, pure_apply]

/-- A loop goes on behind a token that it takes. -/
theorem collectUntil_of_taken {β : Type} {go : β → Token → Option β} {b b' : β}
    (hfresh : l.lookahead = none) (hnext : next l = .ok (some t) m) (hgo : go b t = some b')
    (h : collectUntil go b' m = .ok ts n) : collectUntil go b l = .ok (t :: ts) n := by
  have hsize := size_lt_of_next hfresh hnext
  obtain ⟨ahead, k, hread, rfl, rfl⟩ := exists_of_next hfresh hnext
  unfold collectUntil at h ⊢
  rw [Rules.collectUntil_eq] at h ⊢
  obtain ⟨us, v, hmore, hus⟩ := exists_of_bind h
  cases hus
  rw [bind_apply, unfold_apply, round_of_read hfresh hread, hgo]
  simp only [if_pos hsize, hmore]
  rfl

/-- A loop takes nothing before a token that it does not take. -/
theorem collectUntil_of_left {β : Type} {go : β → Token → Option β} {b : β} {ahead : Lookahead}
    (hfresh : l.lookahead = none) (hread : Rules.read interpolation l = .ok (some ahead) m)
    (hgo : go b ahead.token = none) :
    collectUntil go b l = .ok [] { m with cursor := ahead.start, lookahead := none } := by
  unfold collectUntil
  rw [Rules.collectUntil_eq, bind_apply, unfold_apply, round_of_read hfresh hread, hgo]
  rfl

/-- A closing brace that comes next is read as the brace that it is there. -/
theorem read_brace {p : LexM (List Token)} {u : Text} (hpending : l.pending = none)
    (hrest : l.tokenStart.rest = '}' :: u) :
    ∃ ahead m, Rules.read p l = .ok (some ahead) m ∧
      ahead.token.kind = .op (if 0 < l.depth then .closeInterpolation else .closeBrace) ∧
      ahead.start = l.tokenStart ∧ m.cursor = l.tokenStart.advance 1 := by
  have hstart := tokenStart_of_pending_none hpending
  have hend : l.skipTrivia.cursor.atEnd = false := by
    rw [← hstart, Cursor.atEnd, hrest]
    rfl
  have hfound : Lexeme.at? (0 < l.depth) l.skipTrivia.cursor.rest =
      some {
        kind := .op (if 0 < l.depth then .closeInterpolation else .closeBrace)
        length := 1 } := by
    rw [← hstart, hrest]
    by_cases hinside : 0 < l.depth
    · rw [decide_eq_true hinside, if_pos hinside]
      exact Lexeme.at?_closeInterpolation u
    · rw [decide_eq_false hinside, if_neg hinside]
      exact Lexeme.at?_closeBrace u
  refine ⟨_, _, Rules.read_lexeme p hpending hend hfound, rfl, hstart.symm, ?_⟩
  rw [hstart]

theorem next_brace {u : Text} (hfresh : l.lookahead = none) (hpending : l.pending = none)
    (hrest : l.tokenStart.rest = '}' :: u) :
    ∃ t m, next l = .ok (some t) m ∧
      t.kind = .op (if 0 < l.depth then .closeInterpolation else .closeBrace) ∧
      m.cursor = l.tokenStart.advance 1 := by
  obtain ⟨ahead, m, hread, hkind, -, hcursor⟩ := read_brace (p := interpolation) hpending hrest
  refine ⟨_, _, Rules.next_of_read hfresh hread, hkind, ?_⟩
  rw [cursor_consume, hcursor]

/-! ### The body of an interpolation -/

section
variable {c : Cursor} {options : Options} {inner outer : Lexer} {e : Token}

/-- Inside of an interpolation no token is a brace of the stylesheet. -/
theorem outside_of_closeBrace (hfresh : l.lookahead = none) (hnext : next l = .ok (some t) m)
    (hkind : t.kind = .op .closeBrace) : ¬ 0 < l.depth := by
  obtain ⟨ahead, k, hread, rfl, -⟩ := exists_of_next hfresh hnext
  obtain ⟨-, -, htoken⟩ := (Rules.ends_read interpolation l).of_ok hread
  exact ((brace_of_tokenAt htoken).2.mp hkind).2.2

/-- From outside the tokens go on up to the closing of the interpolation; from inside they are
collected, and its brace comes next. -/
theorem collectUntil_of_encloses (hrun : Run interpolation (ofCursor c options) us inner)
    (hfresh : inner.lookahead = none) (h : Encloses inner outer)
    (hconsumes : Consumes outer (ts ++ [e]) m) (hclose : e.kind = .op .closeInterpolation)
    (hbalanced : Token.Balanced (us ++ ts)) :
    ∃ k u, collectUntil insideBraces () inner = .ok ts k ∧ k.cursor.rest = '}' :: u ∧
      m.cursor = k.cursor.advance 1 := by
  induction ts generalizing us inner outer with
  | nil =>
    rw [List.append_nil] at hbalanced
    cases hconsumes with
    | cons first others =>
      cases others
      have hunlike : ¬ inner.ReadsAlike := by
        intro halike
        -- A closing for both would be one too many for the inner one.
        obtain ⟨k, hnext, -⟩ := h.next_inner hfresh halike first
        have hrun' := (Consumes.cons hnext (.nil k)).run hrun
        have hle := hrun'.tracks.nested _ (List.prefix_refl _)
        have hsettled := hbalanced.settled
        rw [Token.closed_close us hclose, Token.opened_other us (by rw [hclose]; rintro ⟨⟩)] at hle
        omega
      obtain ⟨hpending, hdepth, u, hrest⟩ := brace_of_not_readsAlike hunlike
      obtain ⟨ahead, k, hread, hkind, hstart, -⟩ :=
        read_brace (p := interpolation) hpending hrest
      rw [hdepth, if_neg (Nat.lt_irrefl 0)] at hkind
      have hstops : insideBraces () ahead.token = none := if_pos (Token.isOp_iff.mpr hkind)
      obtain ⟨t, n, hnext, -, hcursor⟩ := next_brace (h.fresh hfresh) (h.pending_eq.trans hpending)
        (h.tokenStart_eq ▸ hrest)
      rw [first] at hnext
      cases hnext
      refine ⟨_, u, collectUntil_of_left hfresh hread hstops, ?_, ?_⟩
      · rw [hstart]
        exact hrest
      · rw [hstart, hcursor, h.tokenStart_eq]
  | cons t ts ih =>
    cases hconsumes with
    | @cons _ outer' _ _ _ first others =>
      rw [List.append_cons] at hbalanced
      have halike : inner.ReadsAlike := by
        refine Classical.byContradiction fun hunlike => ?_
        -- The brace would close the interpolation before its time.
        obtain ⟨hpending, hdepth, u, hrest⟩ := brace_of_not_readsAlike hunlike
        obtain ⟨t', n, hnext, hkind, -⟩ := next_brace (h.fresh hfresh) (h.pending_eq.trans hpending)
          (h.tokenStart_eq ▸ hrest)
        rw [first] at hnext
        cases hnext
        rw [if_pos h.inside] at hkind
        have hle := hbalanced.nested (us ++ [t]) (List.prefix_append _ _)
        have hcount := hrun.tracks.depth
        rw [Token.closed_close us hkind, Token.opened_other us (by rw [hkind]; rintro ⟨⟩)] at hle
        omega
      obtain ⟨inner', hnext, hencloses⟩ := h.next_inner hfresh halike first
      have hgoes : insideBraces () t = some () := by
        refine if_neg fun hbrace => ?_
        exact outside_of_closeBrace (h.fresh hfresh) first (Token.isOp_iff.mp hbrace) h.inside
      have hrun' := (Consumes.cons hnext (.nil inner')).run hrun
      obtain ⟨k, u, hcollect, hrest, hcursor⟩ :=
        ih hrun' (fresh_of_next hnext) hencloses others hbalanced
      exact ⟨k, u, collectUntil_of_taken hfresh hnext hgoes hcollect, hrest, hcursor⟩

/-- What is collected from inside is consumed from outside. -/
theorem consumes_of_encloses (hfresh : inner.lookahead = none) (h : Encloses inner outer)
    (hconsumes : Consumes inner ts m) (hgoes : ts.foldlM insideBraces () = some ()) :
    ∃ n, Consumes outer ts n ∧ Encloses m n := by
  induction hconsumes generalizing outer with
  | nil => exact ⟨outer, .nil outer, h⟩
  | @cons inner inner' m t ts first others ih =>
    obtain ⟨⟨⟩, hfirst, hothers⟩ := Option.bind_eq_some_iff.mp hgoes
    have halike : inner.ReadsAlike := by
      refine Classical.byContradiction fun hunlike => ?_
      obtain ⟨hpending, hdepth, u, hrest⟩ := brace_of_not_readsAlike hunlike
      obtain ⟨t', n, hnext, hkind, -⟩ := next_brace hfresh hpending hrest
      rw [first] at hnext
      cases hnext
      rw [hdepth, if_neg (Nat.lt_irrefl 0)] at hkind
      rw [insideBraces, if_pos (Token.isOp_iff.mpr hkind)] at hfirst
      cases hfirst
    obtain ⟨outer', hnext, hencloses⟩ := h.next_outer hfresh halike first
    obtain ⟨n, hmore, hend⟩ := ih (fresh_of_next first) hencloses hothers
    exact ⟨n, .cons hnext hmore, hend⟩

/-- Right before a brace that stops a loop, no interpolation is open. -/
theorem outside_of_heldUp {u : Text} (hrun : Run interpolation (ofCursor c options) ts l)
    (hfresh : l.lookahead = none) (hheld : HeldUp insideBraces () l)
    (hrest : l.tokenStart.rest = '}' :: u) : l.pending = none ∧ Token.Balanced ts := by
  rcases hheld with ⟨-, hend⟩ | ⟨ahead, d, htoken, hstart, hgo⟩
  · rw [Cursor.atEnd, hrest] at hend
    cases hend
  · have hkind : ahead.token.kind = .op .closeBrace := by
      unfold insideBraces at hgo
      split at hgo
      · next hop => exact Token.isOp_iff.mp hop
      · cases hgo
    obtain ⟨hpending, -, hdepth⟩ := (brace_of_tokenAt htoken).2.mp hkind
    have hwhole : l.openSegment = false := by
      refine Bool.eq_false_iff.mpr fun hcut => ?_
      have hplace : ahead.start = l.front := by
        rw [hstart, tokenStart_of_pending_none hpending, hrun.tracks.skipTrivia_of_cut hcut hfresh,
          front_of_lookahead hfresh]
      have hopen := (hrun.tracks.token_of_cut hcut htoken hplace).1
      rw [hkind] at hopen
      cases hopen
    have hcount := hrun.tracks.depth
    rw [hwhole, if_neg Bool.false_ne_true] at hcount
    exact ⟨hpending, hrun.tracks.nested, by omega⟩

end

/-- **An interpolation is the same from outside and from inside.**  Behind `#{` a lexer gives tokens
up to the closing of that interpolation if and only if a lexer that starts there collects these
tokens as the body of an interpolation, and then both are at the same place. -/
theorem consumes_iff_interpolation (s : Text) (line column : Nat) (options : Options)
    (ts : List Token) (d : Cursor) :
    let whole := ofText ('#' :: '{' :: s) line column options
    let inside := ofCursor (whole.cursor.advance 2) options
    (ts ≠ [] ∧ ∃ b e l, Consumes whole (b :: (ts ++ [e])) l ∧ b.kind = .op .openInterpolation ∧
        e.kind = .op .closeInterpolation ∧ Token.Balanced ts ∧ l.cursor = d ∧ l.previousEnd = d) ↔
      ∃ m, interpolation inside = .ok ts m ∧ m.cursor = d ∧ m.previousEnd = d := by
  intro whole inside
  obtain ⟨b, outer, hopen, hkind, hencloses⟩ : ∃ b outer, whole.next = .ok (some b) outer ∧
      b.kind = .op .openInterpolation ∧ Encloses inside outer := by
    have hskip : whole.skipTrivia = whole :=
      skipTrivia_eq (Recognizer.trivia_eq_none (x := '#') rfl (by decide))
    have hread := Rules.read_lexeme (l := whole) interpolation rfl (by rw [hskip]; rfl)
      (by rw [hskip]; exact Lexeme.at?_openInterpolation _ s)
    rw [hskip] at hread
    refine ⟨_, _, Rules.next_of_read rfl hread, rfl, ?_⟩
    exact ⟨rfl, rfl, rfl, rfl, rfl, rfl, rfl, rfl⟩
  constructor
  · rintro ⟨hne, b', e, l, hconsumes, -, hclose, hbalanced, rfl, hend⟩
    cases hconsumes with
    | cons first others =>
      rw [hopen] at first
      cases first
      obtain ⟨k, u, hcollect, hrest, hcursor⟩ :=
        collectUntil_of_encloses .start rfl hencloses others hclose hbalanced
      exact ⟨_, interpolation_eq_ok.mpr ⟨k, u, hcollect, hne, hrest, rfl⟩, hcursor.symm,
        hcursor.symm⟩
  · rintro ⟨m, hinterpolation, rfl, hend⟩
    obtain ⟨k, u, hcollect, hne, hrest, rfl⟩ := interpolation_eq_ok.mp hinterpolation
    obtain ⟨n, _, hconsumes, hfold, hheld, hk⟩ :=
      (ends_collectUntil_consumes rfl insideBraces ()).of_ok hcollect
    have hstart : k.cursor = n.tokenStart := by
      rw [hk]
      rfl
    rw [hstart] at hrest
    obtain ⟨hpending, hbalanced⟩ :=
      outside_of_heldUp (hconsumes.run .start) (hconsumes.fresh rfl) hheld hrest
    obtain ⟨l, hmore, hn⟩ := consumes_of_encloses rfl hencloses hconsumes hfold
    obtain ⟨e, l', hnext, hclose, hcursor⟩ := next_brace (hn.fresh (hconsumes.fresh rfl))
      (hn.pending_eq.trans hpending) (hn.tokenStart_eq ▸ hrest)
    rw [if_pos hn.inside] at hclose
    have hall := Consumes.cons hopen (hmore.concat hnext)
    rw [hn.tokenStart_eq, ← hstart] at hcursor
    refine ⟨hne, b, e, l', hall, hkind, hclose, hbalanced, hcursor, ?_⟩
    rw [hall.previousEnd (List.cons_ne_nil _ _), hcursor]

end Lexer
end Stylesheet
