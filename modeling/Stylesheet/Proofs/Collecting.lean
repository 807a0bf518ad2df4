import Stylesheet.Proofs.Coverage
import Stylesheet.Proofs.OpenInterpolation
import Stylesheet.Proofs.Quotation

/-!
# Loops over tokens

A loop over tokens looks at each token before it consumes it.  What it consumes is what successive
calls of `next` give all the same, and it stops right before the token that stops it, or where white
space and comments are all that is left (`ends_collectUntil_consumes`).  A loop without an end of
its own consumes whatever successive calls give (`all_of_consumes`).
-/
namespace Stylesheet
namespace Lexer

variable {l m n : Lexer} {t : Token} {ts : List Token}

theorem skipTrivia_skipTrivia (l : Lexer) : l.skipTrivia.skipTrivia = l.skipTrivia :=
  skipTrivia_eq (Cursor.trivia_rest_skip l.cursor)

/-- The lexer at the place where its next token starts. -/
def atToken (l : Lexer) : Lexer :=
  { l with cursor := l.tokenStart }

theorem atToken_of_pending_none (h : l.pending = none) : l.atToken = l.skipTrivia := by
  rw [atToken, tokenStart, h, Option.isSome_none, if_neg Bool.false_ne_true]
  rfl

theorem atToken_of_pending {q : Quote} (h : l.pending = some q) : l.atToken = l := by
  rw [atToken, tokenStart_of_pending (by rw [h]; rfl)]

theorem tokenStart_of_pending_none (h : l.pending = none) : l.tokenStart = l.skipTrivia.cursor := by
  rw [tokenStart, h, Option.isSome_none, if_neg Bool.false_ne_true]

theorem tokenStart_atToken (l : Lexer) : l.atToken.tokenStart = l.tokenStart := by
  cases h : l.pending with
  | some q => rw [atToken_of_pending h]
  | none =>
    rw [atToken_of_pending_none h, tokenStart_of_pending_none h,
      tokenStart_of_pending_none ((moved_skipTrivia l).pending.trans h), skipTrivia_skipTrivia]

theorem atToken_atToken (l : Lexer) : l.atToken.atToken = l.atToken := by
  rw [atToken, tokenStart_atToken]
  rfl

theorem unconsume_atToken (hfresh : l.lookahead = none) : l.atToken.unconsume = l.atToken :=
  unconsume_of_lookahead (l := l.atToken) hfresh

/-- White space and comments are passed over only once. -/
theorem read_atToken (interpolation : LexM (List Token)) (l : Lexer) :
    Rules.read interpolation l.atToken = Rules.read interpolation l := by
  cases h : l.pending with
  | some q => rw [atToken_of_pending h]
  | none =>
    rw [atToken_of_pending_none h, Rules.read_apply, Rules.read_apply, skipTrivia_skipTrivia,
      (moved_skipTrivia l).pending, h]

theorem tokenStart_of_read_none {interpolation : LexM (List Token)}
    (h : Rules.read interpolation l = .ok none m) :
    l.pending = none ∧ l.tokenStart.atEnd = true ∧ m = l.atToken := by
  obtain ⟨-, hpending, rfl, hend⟩ := (Rules.ends_read interpolation l).of_ok h
  rw [← atToken_of_pending_none hpending] at hend ⊢
  exact ⟨hpending, hend, rfl⟩

theorem isDone_of_fresh (hfresh : l.lookahead = none) :
    isDone l = .ok (l.pending.isNone && l.tokenStart.atEnd) l.atToken := by
  rw [isDone_apply, hfresh]
  cases h : l.pending with
  | some q =>
    rw [atToken_of_pending h]
    rfl
  | none =>
    rw [atToken_of_pending_none h, tokenStart, h]
    rfl

/-- Each call that gives a token leaves less to read. -/
theorem size_lt_of_next (hfresh : l.lookahead = none) (h : next l = .ok (some t) m) :
    m.size < l.size := by
  have hrun : Run interpolation l [] l := .start
  obtain ⟨k, ahead, hk, hsize, hview, rfl, rfl⟩ := (ends_next hrun).of_ok h
  exact Nat.lt_of_lt_of_le ((hk.sound hfresh).size_consume_lt hview) hsize

theorem fresh_of_next (h : next l = .ok (some t) m) : m.lookahead = none := by
  have hrun : Run interpolation l [] l := .start
  obtain ⟨k, ahead, -, -, -, -, rfl⟩ := (ends_next hrun).of_ok h
  rfl

/-- A token that is consumed is found where it starts. -/
theorem token_of_next (hfresh : l.lookahead = none) (h : next l = .ok (some t) m) :
    ∃ ahead, Rules.TokenAt interpolation l ahead m.cursor ∧ ahead.token = t ∧
    ahead.start = l.tokenStart := by
  obtain ⟨ahead, k, hread, rfl, rfl⟩ := exists_of_next hfresh h
  obtain ⟨-, hstart, htoken⟩ := (Rules.ends_read interpolation l).of_ok hread
  exact ⟨ahead, by rwa [cursor_consume], rfl, hstart⟩

/-- A token is located where it starts. -/
theorem location_of_next (hfresh : l.lookahead = none) (h : next l = .ok (some t) m) :
    t.location = l.tokenStart.location := by
  obtain ⟨ahead, htoken, rfl, hstart⟩ := token_of_next hfresh h
  rw [htoken.location, hstart]

/-- Only behind the brace of an interpolation does a string go on. -/
theorem pending_of_next (h : next l = .ok (some t) m) (hkind : t.kind ≠ .op .closeInterpolation) :
    m.pending = none := by
  have hrun : Run interpolation l [] l := .start
  obtain ⟨k, ahead, -, -, -, rfl, rfl⟩ := (ends_next hrun).of_ok h
  exact pending_consume k ahead hkind

theorem Consumes.fresh (h : Consumes l ts m) (hfresh : l.lookahead = none) :
    m.lookahead = none := by
  induction h with
  | nil => exact hfresh
  | cons first _ ih => exact ih (fresh_of_next first)

/-- Each of the tokens consumed left less to read. -/
theorem Consumes.size_le (h : Consumes l ts m) (hfresh : l.lookahead = none) :
    m.size + ts.length ≤ l.size := by
  induction h with
  | nil => exact Nat.le_refl _
  | @cons l m n t ts first others ih =>
    have hfirst := size_lt_of_next hfresh first
    have hothers := ih (fresh_of_next first)
    rw [List.length_cons]
    omega

theorem Consumes.concat (h : Consumes l ts m) (hnext : next m = .ok (some t) n) :
    Consumes l (ts ++ [t]) n :=
  h.append (.cons hnext (.nil n))

/-- Calls go on from each other. -/
theorem Consumes.run {start : Lexer} {us : List Token} (h : Consumes l ts m)
    (hl : Run interpolation start us l) : Run interpolation start (us ++ ts) m := by
  induction h generalizing us with
  | nil => rwa [List.append_nil]
  | @cons l m n t ts first _ ih =>
    obtain ⟨k, ahead, hk, -, hview, rfl, rfl⟩ := (ends_next hl).of_ok first
    have hrun := ih (hk.consume hview)
    rwa [List.append_assoc, List.singleton_append] at hrun

theorem Consumes.before (h : Consumes l ts m) (hfresh : l.lookahead = none) :
    l.cursor.Before m.cursor := by
  have hrun : Run interpolation l [] l := .start
  have hfront := ((h.run hrun).sound hfresh).front
  rwa [front_of_lookahead (h.fresh hfresh)] at hfront

/-- Why a loop over tokens goes no further: nothing is left, or it does not go on behind the token
that comes next. -/
def HeldUp {β : Type} (go : β → Token → Option β) (b : β) (l : Lexer) : Prop :=
  l.pending = none ∧ l.tokenStart.atEnd = true ∨
    ∃ ahead d, Rules.TokenAt interpolation l ahead d ∧ ahead.start = l.tokenStart ∧
      go b ahead.token = none

/-- **A loop over tokens consumes what successive calls give.** -/
theorem ends_collectUntil_consumes (hfresh : l.lookahead = none) {β : Type}
    (go : β → Token → Option β) (b : β) :
    Ends (collectUntil go b) l
      (fun ts m => ∃ n b', Consumes l ts n ∧ ts.foldlM go b = some b' ∧ HeldUp go b' n ∧
        m = { n.atToken with expected := m.expected })
      (fun _ _ => True) := by
  unfold collectUntil Rules.collectUntil
  simp only [ends_bind, ends_modify, ends_pure]
  refine Ends.unfold (fun found b' n => Consumes l found n ∧ found.foldlM go b = some b') ?_
    ⟨.nil l, rfl⟩
  rintro found b' n ⟨hconsumes, hfold⟩
  have hn := hconsumes.fresh hfresh
  -- However the loop comes to an end, it puts back what it has in view.
  have hstops : ∀ m : Lexer, HeldUp go b' n →
      m.unconsume = { n.atToken with expected := m.expected } →
      ∃ k b'', Consumes l (found ++ []) k ∧ (found ++ []).foldlM go b = some b'' ∧ HeldUp go b'' k ∧
        m.unconsume = { k.atToken with expected := m.unconsume.expected } := by
    intro m hheld hm
    rw [List.append_nil]
    exact ⟨n, b', hconsumes, hfold, hheld, hm⟩
  unfold Ends
  simp only [bind_apply, isDone_of_fresh hn]
  by_cases hdone : (n.pending.isNone && n.tokenStart.atEnd) = true
  · simp only [hdone, if_true]
    obtain ⟨hpending, hend⟩ := Bool.and_eq_true_iff.mp hdone
    exact hstops n.atToken (.inl ⟨Option.isNone_iff_eq_none.mp hpending, hend⟩)
      (unconsume_atToken hn)
  · simp only [hdone, Bool.false_eq_true, if_false, bind_apply, Rules.peek_apply,
      (show n.atToken.lookahead = none from hn), read_atToken]
    cases hread : Rules.read interpolation n with
    | error e m => trivial
    | ok view m =>
      obtain ⟨⟨_, wording, hm⟩, hview⟩ := (Rules.ends_read interpolation n).of_ok hread
      cases view with
      | none =>
        obtain ⟨hpending, hend, rfl⟩ := tokenStart_of_read_none hread
        have hview : { n.atToken with lookahead := none } = n.atToken := by rw [atToken, ← hn]
        refine hstops { n.atToken with lookahead := none } (.inl ⟨hpending, hend⟩) ?_
        rw [hview]
        exact unconsume_atToken hn
      | some ahead =>
        obtain ⟨hplace, htoken⟩ := hview
        simp only [Option.map_some]
        cases hgo : go b' ahead.token with
        | none =>
          refine hstops { m with lookahead := some ahead } (.inr ⟨ahead, _, htoken, hplace, hgo⟩) ?_
          show { m with cursor := ahead.start, lookahead := none } = _
          rw [hplace, hm, atToken, ← hn]
        | some b'' =>
          have hnext : next n = .ok (some ahead.token) (m.consume ahead) :=
            Rules.next_of_read hn hread
          have hview :
              ({ m with lookahead := some ahead } : Lexer).consume ahead = m.consume ahead :=
            consume_view m ahead (some ahead)
          simp only [bind_apply, Rules.next_apply, hview, Option.toList_some, pure_apply]
          rw [if_pos (size_lt_of_next hn hnext)]
          refine ⟨hconsumes.concat hnext, ?_⟩
          rw [List.foldlM_append, hfold]
          simp [hgo]

/-- A loop that consumes something takes some of the text. -/
theorem left_lt_of_collectUntil {c : Cursor} {options : Options} {β : Type}
    {go : β → Token → Option β} {b : β} (h : collectUntil go b (.ofCursor c options) = .ok ts m)
    (hts : ts ≠ []) : m.front.left < c.left := by
  obtain ⟨n, _, hconsumes, -, -, hm⟩ :=
    (ends_collectUntil_consumes (l := .ofCursor c options) rfl go b).of_ok h
  have hfresh : n.lookahead = none := hconsumes.fresh rfl
  have hsize : n.size + ts.length ≤ 2 * c.left + 0 := hconsumes.size_le rfl
  have hpos := List.length_pos_iff.mpr hts
  have hbehind : 2 * n.cursor.left ≤ n.size := by
    rw [size, front_of_lookahead hfresh]
    exact Nat.le_add_right _ _
  have hfront : m.front = n.tokenStart := by
    rw [front_of_lookahead (by rw [hm]; exact hfresh), hm]
    rfl
  have hstart := (before_tokenStart n).left_le
  rw [hfront]
  omega

/-- The tokens of an interpolation go on up to a brace of the stylesheet. -/
def insideBraces (_ : Unit) (t : Token) : Option Unit :=
  if t.isOp .closeBrace then none else some ()

theorem interpolation_eq_ok {ts : List Token} :
    Lexer.interpolation l = .ok ts m ↔
      ∃ k u, collectUntil insideBraces () l = .ok ts k ∧ ts ≠ [] ∧ k.cursor.rest = '}' :: u ∧
        m = { k with cursor := k.cursor.advance 1, previousEnd := k.cursor.advance 1 } := by
  have hcollect : collectUntil insideBraces () l =
      Rules.collectUntil interpolation
      (fun () t => if t.isOp .closeBrace then none else some ()) () l := rfl
  rw [interpolation_eq, hcollect]
  unfold Rules.interpolated
  rw [bind_apply]
  cases Rules.collectUntil interpolation
    (fun () t => if t.isOp .closeBrace then none else some ()) () l with
  | error e k => simp
  | ok us k =>
    simp only [bind_apply, get_apply, EStateM.Result.ok.injEq]
    cases us with
    | nil =>
      refine ⟨fun h => ?_, ?_⟩
      · cases h
      · rintro ⟨_, _, ⟨rfl, -⟩, hne, -⟩
        exact absurd rfl hne
    | cons t us =>
      rw [if_neg (by simp), Cursor.pass?]
      cases hrest : Recognizer.literal ['}'] k.cursor.rest with
      | none =>
        refine ⟨fun h => ?_, ?_⟩
        · cases h
        · rintro ⟨_, u, ⟨-, rfl⟩, -, hbrace, -⟩
          rw [hbrace] at hrest
          cases hrest
      | some j =>
        obtain ⟨⟨u, hu⟩, rfl⟩ := Recognizer.literal_eq_some.mp hrest
        simp only [Option.map_some, bind_apply, modify_apply, pure_apply, EStateM.Result.ok.injEq]
        refine ⟨?_, ?_⟩
        · rintro ⟨rfl, rfl⟩
          exact ⟨k, u, ⟨rfl, rfl⟩, by simp, hu.symm, rfl⟩
        · rintro ⟨_, _, ⟨rfl, rfl⟩, -, -, rfl⟩
          exact ⟨rfl, rfl⟩

/-- A loop over tokens puts back what it has in view. -/
theorem fresh_of_collectUntil {β : Type} {go : β → Token → Option β} {b : β} {ts : List Token}
    (h : collectUntil go b l = .ok ts m) : m.lookahead = none := by
  unfold collectUntil at h
  obtain ⟨_, _, -, h⟩ := exists_of_bind h
  cases h
  rfl

/-- **All tokens are what successive calls give.** -/
theorem all_of_consumes (h : Consumes l ts m) (hfresh : l.lookahead = none)
    (hend : next m = .ok none n) : all l = .ok ts n := by
  induction h with
  | nil =>
    rw [all, unfold_apply, bind_apply, hend]
    rfl
  | @cons l m k t ts first others ih =>
    have hrest := ih (fresh_of_next first) hend
    rw [all] at hrest
    rw [all, unfold_apply, bind_apply, first]
    simp only [pure_apply]
    rw [if_pos (size_lt_of_next hfresh first), hrest]
    rfl

end Lexer
end Stylesheet
