import Stylesheet.Grammar.Expression
import Stylesheet.Proofs.Interpolation

/-!
# What a lexer leaves open

The tokens that a lexer consumed say which interpolations are open: those that were opened and not
closed again (`Run.tracks`).  The one exception is a string that was cut short, whose interpolation
counts as open although its opening is the next token.  From there it follows what an expression may
leave open (`leavesOpen_of_collectUntil`): a semicolon, a brace, a flag and the end of the text end
an expression even inside its interpolations, and nothing else does.
-/
namespace Stylesheet

namespace Token

/-- How many interpolations some tokens open. -/
def opened (ts : List Token) : Nat :=
  ts.countP (·.isOp .openInterpolation)

/-- How many interpolations some tokens close. -/
def closed (ts : List Token) : Nat :=
  ts.countP (·.isOp .closeInterpolation)

/-- Nowhere in some tokens were more interpolations closed than opened. -/
def Nested (ts : List Token) : Prop :=
  ∀ us, us <+: ts → closed us ≤ opened us

theorem opened_concat (ts : List Token) (t : Token) :
    opened (ts ++ [t]) = opened ts + if t.isOp .openInterpolation then 1 else 0 := by
  rw [opened, opened, List.countP_append, List.countP_singleton]

theorem closed_concat (ts : List Token) (t : Token) :
    closed (ts ++ [t]) = closed ts + if t.isOp .closeInterpolation then 1 else 0 := by
  rw [closed, closed, List.countP_append, List.countP_singleton]

theorem opened_open (ts : List Token) {t : Token} (h : t.kind = .op .openInterpolation) :
    opened (ts ++ [t]) = opened ts + 1 := by
  rw [opened_concat, isOp_iff.mpr h, if_pos rfl]

theorem opened_other (ts : List Token) {t : Token} (h : t.kind ≠ .op .openInterpolation) :
    opened (ts ++ [t]) = opened ts := by
  rw [opened_concat, isOp_eq_false h, if_neg Bool.false_ne_true, Nat.add_zero]

theorem closed_close (ts : List Token) {t : Token} (h : t.kind = .op .closeInterpolation) :
    closed (ts ++ [t]) = closed ts + 1 := by
  rw [closed_concat, isOp_iff.mpr h, if_pos rfl]

theorem closed_other (ts : List Token) {t : Token} (h : t.kind ≠ .op .closeInterpolation) :
    closed (ts ++ [t]) = closed ts := by
  rw [closed_concat, isOp_eq_false h, if_neg Bool.false_ne_true, Nat.add_zero]

theorem nested_nil : Nested [] := by
  intro us h
  rw [List.prefix_nil.mp h]
  exact Nat.le_refl _

theorem Nested.concat {ts : List Token} (h : Nested ts) {t : Token}
    (ht : closed (ts ++ [t]) ≤ opened (ts ++ [t])) : Nested (ts ++ [t]) := by
  intro us hus
  rcases List.prefix_concat_iff.mp hus with rfl | hus
  · exact ht
  · exact h us hus

theorem Nested.of_concat {ts : List Token} {t : Token} (h : Nested (ts ++ [t])) : Nested ts :=
  fun us hus => h us (hus.trans (List.prefix_append ts [t]))

end Token

namespace Lexer

open Token (opened closed Nested)

/-- The open interpolations of a lexer are those that its tokens opened and did not close.  That of
a string cut short is open already, and its opening is right ahead. -/
structure Tracks (l : Lexer) (ts : List Token) : Prop where
  depth : l.depth + closed ts = opened ts + if l.openSegment then 1 else 0
  nested : Nested ts
  cut : l.openSegment = true → l.pending = none ∧ ∃ t, l.front.rest = '#' :: '{' :: t

variable {interpolation : LexM (List Token)} {start l : Lexer} {ts : List Token}

/-- Behind a string that was cut short the opening of its interpolation is found, and nothing
else. -/
theorem Tracks.token_of_cut (h : Tracks l ts) (hcut : l.openSegment = true) {ahead : Lookahead}
    {d : Cursor} (htoken : Rules.TokenAt interpolation l ahead d) (hplace : ahead.start = l.front) :
    ahead.token.kind = .op .openInterpolation ∧ ahead.opens = none := by
  obtain ⟨hpending, t, hrest⟩ := h.cut hcut
  rw [← hplace] at hrest
  cases htoken with
  | segment c q x pending => rw [hpending] at pending; cases pending
  | lexeme c x pending found =>
    have hx := (Lexeme.at?_openInterpolation (0 < l.depth) t).symm.trans (hrest ▸ found)
    cases hx
    exact ⟨rfl, rfl⟩
  | special c head body parts inner pending begins =>
    have hnone : Recognizer.specialHead ('#' :: '{' :: t) = none := rfl
    exact absurd (hrest ▸ begins : Recognizer.specialHead ('#' :: '{' :: t) = some head)
      (by rw [hnone]; exact nofun)

/-- Only a string goes on behind an interpolation. -/
theorem Rules.TokenAt.pending_of_ne_string {ahead : Lookahead} {d : Cursor}
    (h : Rules.TokenAt interpolation l ahead d) (hkind : ∀ v q, ahead.token.kind ≠ .string v q) :
    l.pending = none := by
  cases h with
  | segment c q x pending found =>
    obtain ⟨⟨v, hstring⟩, _⟩ := Lexeme.segment?_eq_some found
    exact absurd hstring (hkind v q)
  | lexeme c x pending => exact pending
  | special c head body parts inner pending => exact pending

/-- What a token means to the open interpolations. -/
inductive Effect (l : Lexer) (ahead : Lookahead) (d : Cursor) : Prop
  | opens (kind : ahead.token.kind = .op .openInterpolation) (whole : ahead.opens = none)
  | closes (kind : ahead.token.kind = .op .closeInterpolation) (whole : ahead.opens = none)
      (inside : 0 < l.depth)
  | cuts (v : Text) (q : Quote) (kind : ahead.token.kind = .string v q) (cut : ahead.opens = some q)
      (goesOn : ∃ t, d.rest = '#' :: '{' :: t)
  | nothing (open_ : ahead.token.kind ≠ .op .openInterpolation)
      (close : ahead.token.kind ≠ .op .closeInterpolation) (whole : ahead.opens = none)

theorem effect_of_string {v : Text} {q : Quote} {x : Lexeme} {c : Cursor}
    (kind : x.kind = .string v q)
    (opens : x.opens = none ∨ x.opens = some q ∧ ∃ t, c.rest.drop x.length = '#' :: '{' :: t) :
    Effect l (x.ahead c) (c.advance x.length) := by
  rcases opens with hwhole | ⟨hcut, hrest⟩
  · refine .nothing ?_ ?_ hwhole
    · show x.kind ≠ _
      rw [kind]
      exact nofun
    · show x.kind ≠ _
      rw [kind]
      exact nofun
  · exact .cuts v q kind hcut hrest

theorem effect_of_tokenAt {ahead : Lookahead} {d : Cursor}
    (h : Rules.TokenAt interpolation l ahead d) : Effect l ahead d := by
  cases h with
  | segment c q x pending found =>
    obtain ⟨⟨v, hkind⟩, hopens⟩ := Lexeme.segment?_eq_some found
    exact effect_of_string hkind hopens
  | lexeme c x pending found =>
    have hother : ∀ {k : TokenKind}, x.kind = k → k ≠ .op .openInterpolation →
        k ≠ .op .closeInterpolation → x.opens = none →
        Effect l (x.ahead c) (c.advance x.length) := by
      rintro k rfl hopen hclose hwhole
      exact .nothing hopen hclose hwhole
    cases Lexeme.found_of_at? found with
    | string v q kind _ opens => exact effect_of_string kind opens
    | op o plain kind _ close =>
      by_cases hopen : o = .openInterpolation
      · exact .opens (kind.trans (by rw [hopen])) plain.2
      · by_cases hclose : o = .closeInterpolation
        · exact .closes (kind.trans (by rw [hclose])) plain.2 (of_decide_eq_true (close hclose))
        · refine hother kind ?_ ?_ plain.2
          · exact fun h => hopen (TokenKind.op.inj h)
          · exact fun h => hclose (TokenKind.op.inj h)
    | legacy name plain kind => exact hother kind nofun nofun plain.2
    | inert plain kind =>
      refine hother rfl ?_ ?_ plain.2
      · intro h
        rw [h] at kind
        exact kind
      · intro h
        rw [h] at kind
        exact kind
  | special c head body parts inner => exact .nothing nofun nofun rfl

section
variable {ahead : Lookahead}

theorem Tracks.depth_of_whole (h : Tracks l ts) (hsegment : l.openSegment = false) :
    l.depth + closed ts = opened ts := by
  have hdepth := h.depth
  rwa [hsegment, if_neg Bool.false_ne_true] at hdepth

theorem Tracks.consume_open (h : Tracks l ts) (hkind : ahead.token.kind = .op .openInterpolation)
    (hwhole : ahead.opens = none) : Tracks (l.consume ahead) (ts ++ [ahead.token]) := by
  have hopened := Token.opened_open ts hkind
  have hclosed : closed (ts ++ [ahead.token]) = closed ts :=
    Token.closed_other ts (by rw [hkind]; rintro ⟨⟩)
  have hle := h.nested ts (List.prefix_refl ts)
  have hnested : Nested (ts ++ [ahead.token]) := h.nested.concat (by omega)
  have hdepth := h.depth
  rw [consume_eq hwhole, note_open hkind]
  -- The interpolation of a string cut short was counted when the string was.
  by_cases hsegment : l.openSegment = true
  · rw [if_pos hsegment] at hdepth ⊢
    refine ⟨?_, hnested, fun hcut => absurd hcut Bool.false_ne_true⟩
    show l.depth + _ = _ + 0
    omega
  · rw [if_neg hsegment] at hdepth ⊢
    refine ⟨?_, hnested, fun hcut => absurd hcut hsegment⟩
    show l.depth + 1 + _ = _ + if l.openSegment then 1 else 0
    rw [if_neg hsegment]
    omega

theorem Tracks.consume_close (h : Tracks l ts) (hkind : ahead.token.kind = .op .closeInterpolation)
    (hwhole : ahead.opens = none) (hinside : 0 < l.depth) (hsegment : l.openSegment = false) :
    Tracks (l.consume ahead) (ts ++ [ahead.token]) := by
  have hopened : opened (ts ++ [ahead.token]) = opened ts :=
    Token.opened_other ts (by rw [hkind]; rintro ⟨⟩)
  have hclosed := Token.closed_close ts hkind
  have hdepth := h.depth_of_whole hsegment
  obtain ⟨around, outer, houter⟩ := List.exists_cons_of_length_pos hinside
  have hlength : l.depth = outer.length + 1 := by rw [Lexer.depth, houter, List.length_cons]
  rw [consume_eq hwhole, note_close hkind houter]
  refine ⟨?_, h.nested.concat (by omega),
    fun hcut => absurd (hsegment.symm.trans hcut) Bool.false_ne_true⟩
  show outer.length + _ = _ + if l.openSegment then 1 else 0
  rw [hsegment, if_neg Bool.false_ne_true]
  omega

theorem Tracks.consume_segment (h : Tracks l ts) {v : Text} {q : Quote}
    (hkind : ahead.token.kind = .string v q) (hcut : ahead.opens = some q)
    (hgoesOn : ∃ t, l.cursor.rest = '#' :: '{' :: t) (hsegment : l.openSegment = false) :
    Tracks (l.consume ahead) (ts ++ [ahead.token]) := by
  have hopen : ahead.token.kind ≠ .op .openInterpolation := by rw [hkind]; rintro ⟨⟩
  have hclose : ahead.token.kind ≠ .op .closeInterpolation := by rw [hkind]; rintro ⟨⟩
  have hopened := Token.opened_other ts hopen
  have hclosed := Token.closed_other ts hclose
  have hle := h.nested ts (List.prefix_refl ts)
  refine ⟨?_, h.nested.concat (by omega), fun _ => ⟨pending_consume l ahead hclose, ?_⟩⟩
  · have hdepth : l.interpolations.length + closed ts = opened ts := h.depth_of_whole hsegment
    rw [consume_cut hcut]
    show (l.note ahead.token).interpolations.length + 1 + _ = _ + 1
    rw [(interpolations_note hopen hclose).1]
    omega
  · rw [front_consume]
    exact hgoesOn

theorem Tracks.consume_other (h : Tracks l ts) (hopen : ahead.token.kind ≠ .op .openInterpolation)
    (hclose : ahead.token.kind ≠ .op .closeInterpolation) (hwhole : ahead.opens = none)
    (hsegment : l.openSegment = false) : Tracks (l.consume ahead) (ts ++ [ahead.token]) := by
  have hopened := Token.opened_other ts hopen
  have hclosed := Token.closed_other ts hclose
  have hle := h.nested ts (List.prefix_refl ts)
  have hdepth : l.interpolations.length + closed ts = opened ts := h.depth_of_whole hsegment
  obtain ⟨hsame, hcut⟩ := interpolations_note (l := l) hopen hclose
  rw [hsegment] at hcut
  rw [consume_eq hwhole]
  refine ⟨?_, h.nested.concat (by omega),
    fun hcut' => absurd (hcut.symm.trans hcut') Bool.false_ne_true⟩
  show (l.note ahead.token).interpolations.length + _ =
    _ + if (l.note ahead.token).openSegment then 1 else 0
  rw [hsame, hcut, if_neg Bool.false_ne_true]
  omega

/-- **What a consumed token keeps.** -/
theorem Tracks.consume (h : Tracks l ts) (hview : l.lookahead = some ahead)
    (htoken : Rules.TokenAt interpolation l ahead l.cursor) :
    Tracks (l.consume ahead) (ts ++ [ahead.token]) := by
  have hplace : ahead.start = l.front := by rw [front, hview]
  -- Where a string was cut short, only the opening of its interpolation comes next.
  have hwhole : ahead.token.kind ≠ .op .openInterpolation → l.openSegment = false := by
    intro hkind
    rw [Bool.eq_false_iff]
    exact fun hcut => hkind (h.token_of_cut hcut htoken hplace).1
  cases effect_of_tokenAt htoken with
  | opens kind whole => exact h.consume_open kind whole
  | closes kind whole inside =>
    exact h.consume_close kind whole inside (hwhole (by rw [kind]; rintro ⟨⟩))
  | cuts v q kind cut goesOn =>
    exact h.consume_segment kind cut goesOn (hwhole (by rw [kind]; rintro ⟨⟩))
  | nothing open_ close whole => exact h.consume_other open_ close whole (hwhole open_)

end

/-- A lexer that stands where it stood leaves the same open. -/
theorem Tracks.congr {m : Lexer} (h : Tracks l ts)
    (hinterpolations : m.interpolations = l.interpolations)
    (hsegment : m.openSegment = l.openSegment)
    (hcut : m.openSegment = true → m.pending = l.pending ∧ m.front = l.front) : Tracks m ts := by
  refine ⟨?_, h.nested, fun hm => ?_⟩
  · rw [Lexer.depth, hinterpolations, hsegment]
    exact h.depth
  · obtain ⟨hpending, hfront⟩ := hcut hm
    rw [hpending, hfront]
    exact h.cut (hsegment ▸ hm)

theorem Tracks.skipTrivia_of_cut (h : Tracks l ts) (hcut : l.openSegment = true)
    (hahead : l.lookahead = none) : l.skipTrivia = l := by
  obtain ⟨_, t, hrest⟩ := h.cut hcut
  rw [front_of_lookahead hahead] at hrest
  exact skipTrivia_eq (by rw [hrest, Recognizer.trivia_eq_none (by decide) (by decide)])

/-- The opening of an interpolation can be read. -/
theorem Tracks.read_of_cut (h : Tracks l ts) (hcut : l.openSegment = true)
    (hahead : l.lookahead = none) {e : SyntaxError} {m : Lexer} :
    Rules.read interpolation l ≠ .error e m := by
  obtain ⟨hpending, t, hrest⟩ := h.cut hcut
  have hskip := h.skipTrivia_of_cut hcut hahead
  rw [front_of_lookahead hahead] at hrest
  rw [Rules.read_lexeme interpolation hpending (by rw [hskip, Cursor.atEnd, hrest]; rfl)
    (by rw [hskip, hrest]; exact Lexeme.at?_openInterpolation _ t)]
  exact nofun

/-- **A lexer tracks its open interpolations**, whatever it is asked. -/
theorem Run.tracks {c : Cursor} {options : Options}
    (h : Run interpolation (ofCursor c options) ts l) : Tracks l ts := by
  induction h with
  | start => exact ⟨rfl, Token.nested_nil, nofun⟩
  | reword _ _ ih => exact ih.congr rfl rfl fun _ => ⟨rfl, rfl⟩
  | rewarn _ _ ih => exact ih.congr rfl rfl fun _ => ⟨rfl, rfl⟩
  | @skip _ l _ hahead hpending ih =>
    refine ih.congr rfl rfl fun hcut => ⟨(moved_skipTrivia l).pending, ?_⟩
    rw [ih.skipTrivia_of_cut hcut hahead]
  | @look _ l m ahead _ hahead hread ih =>
    obtain ⟨⟨_, _, hm⟩, hplace, _⟩ := (Rules.ends_read interpolation l).of_ok hread
    refine ih.congr (by rw [hm]) (by rw [hm]) fun hcut => ⟨by rw [hm]; rfl, ?_⟩
    have hcut' : l.openSegment = true := by rw [hm] at hcut; exact hcut
    show ahead.start = l.front
    rw [hplace, tokenStart, (ih.cut hcut').1, ih.skipTrivia_of_cut hcut' hahead,
      front_of_lookahead hahead]
    exact if_neg Bool.false_ne_true
  | @stop _ l m _ _ hahead hread ih =>
    obtain ⟨_, _, hm⟩ := (Rules.ends_read interpolation l).of_error hread
    refine ih.congr (by rw [hm]) (by rw [hm]) fun hcut => ?_
    have hcut' : l.openSegment = true := by rw [hm] at hcut; exact hcut
    exact absurd hread (ih.read_of_cut hcut' hahead)
  | putBack _ ih => exact ih.congr rfl rfl fun _ => ⟨rfl, rfl⟩
  | consume hrun hview ih => exact ih.consume hview ((hrun.sound rfl).view _ hview)
  | @brace _ l _ _ hahead hclose ih =>
    refine ih.congr rfl rfl fun hcut => ?_
    obtain ⟨_, t, hrest⟩ := ih.cut hcut
    rw [front_of_lookahead hahead, hclose] at hrest
    cases hrest

end Lexer

/-! ### What ends an expression -/

namespace Grammar

open Token (opened closed Nested)

/-- Only a few tokens end an expression, and only four of them inside an interpolation. -/
theorem Nesting.after_eq_none {stop : Stop} {n : Nesting} {t : Token} (h : n.after stop t = none) :
    t.kind = .op .semicolon ∨ t.kind = .op .openBrace ∨ (∃ name, t.kind = .var name true) ∨
      t.kind = .op .closeBrace ∨
      n.interpolations = 0 ∧ (t.kind = .op .closeParen ∨ t.kind = .op .comma) := by
  have houtermost : n.isOutermost = true → n.interpolations = 0 := by
    intro hn
    exact of_decide_eq_true (Bool.and_eq_true_iff.mp hn).2
  unfold Nesting.after at h
  split at h
  · next hkind => exact .inl hkind
  · next hkind => exact .inr (.inl hkind)
  · next hkind => exact .inr (.inr (.inr (.inl hkind)))
  · next name hkind => exact .inr (.inr (.inl ⟨name, hkind⟩))
  · cases h
  · cases h
  · cases h
  · next hkind =>
    split at h
    · next hn => exact .inr (.inr (.inr (.inr ⟨houtermost hn, .inl hkind⟩)))
    · cases h
  · next hkind =>
    split at h
    · next hn => exact .inr (.inr (.inr (.inr ⟨houtermost hn.2, .inr hkind⟩)))
    · cases h
  · cases h

section
variable {stop : Stop} {n m : Nesting} {t : Token} {ts : List Token}

theorem Nesting.interpolations_open (hkind : t.kind = .op .openInterpolation)
    (h : n.after stop t = some m) : m.interpolations = n.interpolations + 1 := by
  unfold Nesting.after at h
  rw [hkind] at h
  cases h
  rfl

theorem Nesting.interpolations_close (hkind : t.kind = .op .closeInterpolation)
    (h : n.after stop t = some m) : m.interpolations = n.interpolations - 1 := by
  unfold Nesting.after at h
  rw [hkind] at h
  cases h
  rfl

theorem Nesting.interpolations_other (hopen : t.kind ≠ .op .openInterpolation)
    (hclose : t.kind ≠ .op .closeInterpolation) (h : n.after stop t = some m) :
    m.interpolations = n.interpolations := by
  unfold Nesting.after at h
  split at h
  · cases h
  · cases h
  · cases h
  · split at h
    · cases h
    · cases h
      rfl
  · cases h
    rfl
  · next hkind => exact absurd hkind hopen
  · next hkind => exact absurd hkind hclose
  · split at h
    · split at h
      · cases h
      · cases h
        rfl
    · cases h
      rfl
  · split at h
    · cases h
    · cases h
      rfl
  · cases h
    rfl

/-- An expression counts a token as its lexer does. -/
theorem Nesting.interpolations_concat (hcount : n.interpolations + closed ts = opened ts)
    (hnested : Nested (ts ++ [t])) (h : n.after stop t = some m) :
    m.interpolations + closed (ts ++ [t]) = opened (ts ++ [t]) := by
  have hle := hnested _ (List.prefix_refl _)
  by_cases hopen : t.kind = .op .openInterpolation
  · have hclose : t.kind ≠ .op .closeInterpolation := by rw [hopen]; rintro ⟨⟩
    rw [Token.opened_open ts hopen, Token.closed_other ts hclose,
      Nesting.interpolations_open hopen h]
    omega
  · rw [Token.opened_other ts hopen] at hle ⊢
    by_cases hclose : t.kind = .op .closeInterpolation
    · rw [Token.closed_close ts hclose] at hle ⊢
      rw [Nesting.interpolations_close hclose h]
      omega
    · rw [Token.closed_other ts hclose, Nesting.interpolations_other hopen hclose h]
      exact hcount

/-- An expression counts the open interpolations as its lexer does. -/
theorem Nesting.interpolations_foldlM (hnested : Nested ts)
    (h : ts.foldlM (Nesting.after stop) {} = some n) :
    n.interpolations + closed ts = opened ts := by
  -- Whether an expression goes on is decided at its end, so the induction is from there.
  obtain ⟨us, rfl⟩ : ∃ us : List Token, ts = us.reverse := ⟨ts.reverse, ts.reverse_reverse.symm⟩
  induction us generalizing n with
  | nil =>
    cases h
    rfl
  | cons t us ih =>
    rw [List.reverse_cons] at h hnested ⊢
    rw [List.foldlM_append] at h
    obtain ⟨m, hm, hn⟩ := Option.bind_eq_some_iff.mp h
    rw [List.foldlM_cons] at hn
    obtain ⟨k, hk, hkn⟩ := Option.bind_eq_some_iff.mp hn
    cases hkn
    exact Nesting.interpolations_concat (ih hnested.of_concat hm) hnested hk

end

/-- What the lexer of an expression leaves open behind its tokens. -/
structure LeavesOpen (tokens : List Token) (l : Lexer) : Prop where
  /-- No string is waiting to go on. -/
  whole : l.pending = none ∧ l.openSegment = false
  /-- The open interpolations are those of the tokens. -/
  depth : l.depth + closed tokens = opened tokens
  nested : Nested tokens
  /-- Inside an interpolation only these end an expression. -/
  ends : 0 < l.depth →
    l.front.atEnd = true ∨ ∃ x ∈ [';', '{', '!'], l.front.rest.head? = some x

/-- What the text of a token that ends an expression starts with. -/
theorem head_of_after_eq_none {interpolation : LexM (List Token)} {stop : Stop}
    {n : Nesting} {l : Lexer} {ahead : Lookahead} {d : Cursor}
    (htoken : Lexer.Rules.TokenAt interpolation l ahead d)
    (hafter : n.after stop ahead.token = none) :
    ∃ x, ahead.start.rest.head? = some x ∧
      (x ∈ [';', '{', '!'] ∨ x = '}' ∧ l.depth = 0 ∨ x ∈ [')', ','] ∧ n.interpolations = 0) := by
  have hhead : ∀ {x : Char} {t u : Text}, x :: t <+: u → u.head? = some x := by
    rintro x t _ ⟨u, rfl⟩
    rfl
  have hkinds := Nesting.after_eq_none hafter
  cases htoken with
  | segment c q x pending found =>
    obtain ⟨⟨v, hstring⟩, _⟩ := Lexeme.segment?_eq_some found
    replace hstring : (x.ahead c).token.kind = .string v q := hstring
    rw [hstring] at hkinds
    rcases hkinds with h | h | ⟨_, h⟩ | h | ⟨_, h | h⟩ <;> cases h
  | special c head body parts inner =>
    rcases hkinds with h | h | ⟨_, h⟩ | h | ⟨_, h | h⟩ <;> cases h
  | lexeme c x pending found =>
    replace hkinds : x.kind = _ ∨ x.kind = _ ∨ (∃ name, x.kind = _) ∨ x.kind = _ ∨
      n.interpolations = 0 ∧ (x.kind = _ ∨ x.kind = _) := hkinds
    show ∃ y, c.rest.head? = some y ∧ _
    cases Lexeme.found_of_at? found with
    | string v q kind =>
      rw [kind] at hkinds
      rcases hkinds with h | h | ⟨_, h⟩ | h | ⟨_, h | h⟩ <;> cases h
    | legacy name plain kind text => exact ⟨'!', text, .inl (by decide)⟩
    | inert plain kind =>
      rcases hkinds with h | h | ⟨_, h⟩ | h | ⟨_, h | h⟩ <;> rw [h] at kind <;> cases kind
    | op o plain kind text close brace =>
      rw [kind] at hkinds
      rcases hkinds with h | h | ⟨_, h⟩ | h | ⟨hcount, h | h⟩
      · cases h
        exact ⟨';', hhead text, .inl (by decide)⟩
      · cases h
        exact ⟨'{', hhead text, .inl (by decide)⟩
      · cases h
      · cases h
        have houtside : ¬ 0 < l.depth := of_decide_eq_false (brace rfl)
        exact ⟨'}', hhead text, .inr (.inl ⟨rfl, by omega⟩)⟩
      · cases h
        exact ⟨')', hhead text, .inr (.inr ⟨by decide, hcount⟩)⟩
      · cases h
        exact ⟨',', hhead text, .inr (.inr ⟨by decide, hcount⟩)⟩

/-- What ends an expression inside an interpolation, by the text it starts with. -/
theorem ends_inside {interpolation : LexM (List Token)} {stop : Stop} {n : Nesting} {l : Lexer}
    {ahead : Lookahead} {d : Cursor} (htoken : Lexer.Rules.TokenAt interpolation l ahead d)
    (hafter : n.after stop ahead.token = none) (hdepth : 0 < l.depth)
    (hcount : 0 < n.interpolations) : ∃ x ∈ [';', '{', '!'], ahead.start.rest.head? = some x := by
  obtain ⟨x, hx, hinside | ⟨-, hzero⟩ | ⟨-, hzero⟩⟩ := head_of_after_eq_none htoken hafter
  · exact ⟨x, hinside, hx⟩
  · omega
  · omega

/-- No token that ends an expression lies behind a string, be it cut short or about to go on. -/
theorem whole_of_after_eq_none {interpolation : LexM (List Token)} {stop : Stop} {n : Nesting}
    {l : Lexer} {ts : List Token} {ahead : Lookahead} {d : Cursor} (htracks : Lexer.Tracks l ts)
    (hview : l.lookahead = some ahead) (htoken : Lexer.Rules.TokenAt interpolation l ahead d)
    (hafter : n.after stop ahead.token = none) : l.pending = none ∧ l.openSegment = false := by
  have hkinds := Nesting.after_eq_none hafter
  refine ⟨?_, Bool.eq_false_iff.mpr fun hcut => ?_⟩
  · refine htoken.pending_of_ne_string fun v q hstring => ?_
    rw [hstring] at hkinds
    rcases hkinds with h | h | ⟨_, h⟩ | h | ⟨_, h | h⟩ <;> cases h
  · have hplace : ahead.start = l.front := by rw [Lexer.front, hview]
    obtain ⟨hopen, _⟩ := htracks.token_of_cut hcut htoken hplace
    rw [hopen] at hkinds
    rcases hkinds with h | h | ⟨_, h⟩ | h | ⟨_, h | h⟩ <;> cases h

/-- **What an expression leaves open.** -/
theorem leavesOpen_of_collectUntil {stop : Stop} {d : Cursor} {options : Options}
    {tokens : List Token} {l : Lexer}
    (h : Lexer.collectUntil (Nesting.after stop) {} (.ofCursor d options) = .ok tokens l) :
    LeavesOpen tokens l := by
  obtain ⟨n, nesting, hrun, _, hfold, hstopped, rfl⟩ :=
    (Lexer.ends_collectUntil rfl .start (Nesting.after stop) {}).of_ok h
  rw [List.nil_append] at hrun
  have htracks := hrun.tracks
  have hcount := Nesting.interpolations_foldlM htracks.nested hfold
  rcases hstopped with ⟨hview, hpending, hend⟩ | ⟨ahead, hview, hafter⟩
  · have hsegment : n.openSegment = false := by
      refine Bool.eq_false_iff.mpr fun hcut => ?_
      obtain ⟨_, t, hrest⟩ := htracks.cut hcut
      rw [Lexer.front_of_lookahead hview] at hrest
      rw [Cursor.atEnd, hrest] at hend
      cases hend
    have hdepth := htracks.depth
    rw [hsegment] at hdepth
    refine ⟨⟨hpending, hsegment⟩, hdepth, htracks.nested, fun _ => .inl ?_⟩
    show n.front.atEnd = true
    rw [Lexer.front_of_lookahead hview]
    exact hend
  · have htoken := (hrun.sound rfl).view ahead hview
    obtain ⟨hpending, hsegment⟩ := whole_of_after_eq_none htracks hview htoken hafter
    have hdepth := htracks.depth
    rw [hsegment, if_neg Bool.false_ne_true, Nat.add_zero] at hdepth
    refine ⟨⟨hpending, hsegment⟩, hdepth, htracks.nested, fun hinside => .inr ?_⟩
    have hfront : n.unconsume.front = ahead.start := by
      show n.front = _
      rw [Lexer.front, hview]
    rw [hfront]
    replace hinside : 0 < n.depth := hinside
    exact ends_inside htoken hafter hinside (by omega)

/-! ### What ends a run of tokens in a selector -/

/-- What the lexer of a run of selector tokens leaves open behind them.  The run ends at any
operator, so it may end inside a string, right before the interpolation that cuts the string
short. -/
structure LeavesSegment (tokens : List Token) (l : Lexer) : Prop where
  plain : ∀ t ∈ tokens, ∀ o, t.kind ≠ .op o
  pending : l.pending = none
  depth : l.depth = if l.openSegment then 1 else 0
  cut : l.openSegment = true → ∃ t, l.front.rest = '#' :: '{' :: t

theorem foldlM_unless {p : Token → Bool} {ts : List Token}
    (h : ts.foldlM (fun () t => if p t then none else some ()) () = some ()) :
    ∀ t ∈ ts, p t = false := by
  induction ts with
  | nil => exact nofun
  | cons t ts ih =>
    rw [List.foldlM_cons] at h
    obtain ⟨_, ht, hts⟩ := Option.bind_eq_some_iff.mp h
    split at ht
    · cases ht
    · next hp =>
      intro u hu
      rcases List.mem_cons.mp hu with rfl | hu
      · exact Bool.eq_false_iff.mpr hp
      · exact ih hts u hu

/-- **What a run of selector tokens leaves open.** -/
theorem leavesSegment_of_takeUntil {d : Cursor} {options : Options}
    {tokens : List Token} {l : Lexer}
    (h : Lexer.takeUntil Token.isOperator (.ofCursor d options) = .ok tokens l) :
    LeavesSegment tokens l := by
  unfold Lexer.takeUntil Lexer.collectUntil at h
  obtain ⟨n, _, hrun, _, hfold, hstopped, rfl⟩ :=
    (Lexer.ends_collectUntil rfl .start _ ()).of_ok h
  rw [List.nil_append] at hrun
  have htracks := hrun.tracks
  have hplain : ∀ t ∈ tokens, ∀ o, t.kind ≠ .op o := by
    intro t ht o hkind
    have hno := foldlM_unless hfold t ht
    rw [Token.isOperator_iff.mpr ⟨o, hkind⟩] at hno
    cases hno
  have hcount : ∀ o, tokens.countP (·.isOp o) = 0 := by
    intro o
    refine List.countP_eq_zero.mpr fun t ht => ?_
    rw [Token.isOp_eq_false (hplain t ht o)]
    exact Bool.false_ne_true
  have hdepth := htracks.depth
  rw [opened, closed, hcount, hcount, Nat.add_zero, Nat.zero_add] at hdepth
  refine ⟨hplain, ?_, hdepth, fun hcut => (htracks.cut hcut).2⟩
  rcases hstopped with ⟨_, hpending, _⟩ | ⟨ahead, hview, hgo⟩
  · exact hpending
  · have hop : ahead.token.isOperator = true := by
      refine Decidable.byContradiction fun hno => ?_
      replace hgo : (if ahead.token.isOperator = true then none else some ()) = none := hgo
      rw [if_neg hno] at hgo
      cases hgo
    obtain ⟨o, hkind⟩ := Token.isOperator_iff.mp hop
    exact ((hrun.sound rfl).view ahead hview).pending_of_ne_string (by rw [hkind]; exact nofun)

end Grammar
end Stylesheet
