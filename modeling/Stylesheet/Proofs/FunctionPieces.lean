import Mathlib.Data.List.Chain
import Stylesheet.Proofs.Collecting
import Stylesheet.Proofs.SpecialFunction

/-!
# The pieces of special functions

The parts of a special function are read one by one, an escape or a character at a time where they
are text, and then joined.  What comes out is in a normal form (`Piece.NormalAt`): it starts with
the name of the function, no two pieces of text are next to each other, no piece is empty, and no
escape is divided.

The tokens of the interpolations are read by lexers of their own, and a special function may stand
among them again.  `Token.Within` is a token inside another, and each of these was consumed by some
lexer on its way through the text (`Lexer.next_of_within`).  So what holds of every token that a
lexer finds holds of those inside a special function too, however deep.
-/
namespace Stylesheet

/-! ### Whole escapes -/

namespace Text

/-- Whether every backslash that escapes has the escaped character behind it in the text. -/
def wholeEscapes : Text → Bool
  | '\\' :: _ :: t => wholeEscapes t
  | c :: t => c != '\\' && wholeEscapes t
  | [] => true

variable {t : Text}

theorem wholeEscapes_append (h : wholeEscapes t = true) (u : Text) :
    wholeEscapes (t ++ u) = wholeEscapes u := by
  fun_induction wholeEscapes t with
  | case1 c t ih =>
    rw [List.cons_append, List.cons_append, wholeEscapes, ih h]
  | case2 c t hescape ih =>
    obtain ⟨hc, ht⟩ := Bool.and_eq_true_iff.mp h
    rw [List.cons_append, wholeEscapes, hc, Bool.true_and, ih ht]
    rintro x v rfl
    cases hc
  | case3 => rfl

/-- A text that ends with another character than a backslash has no backslash left over. -/
theorem wholeEscapes_concat (t : Text) {x : Char} (hx : x ≠ '\\') :
    wholeEscapes (t ++ [x]) = true := by
  fun_induction wholeEscapes t with
  | case1 c t ih => rwa [List.cons_append, List.cons_append, wholeEscapes]
  | case2 c t hescape ih =>
    by_cases hc : c = '\\'
    · cases t with
      | nil =>
        subst hc
        rfl
      | cons y t => exact absurd rfl (hescape y t hc)
    · rw [List.cons_append, wholeEscapes, ih, Bool.and_true]
      · simpa using hc
      · rintro y v rfl
        exact absurd rfl hc
  | case3 => simpa [wholeEscapes] using hx

theorem IsUnit.whole (h : IsUnit t) : t ≠ [] ∧ wholeEscapes t = true := by
  rcases h with ⟨x, rfl⟩ | ⟨x, hx, rfl⟩
  · exact ⟨List.cons_ne_nil _ _, rfl⟩
  · exact ⟨List.cons_ne_nil _ _, wholeEscapes_concat [] hx⟩

end Text

/-- The beginning of a special function ends with its parenthesis, so nothing is escaped behind
it. -/
theorem Recognizer.whole_of_specialHead {t : Text} {n : Nat} (h : specialHead t = some n) :
    t.take n ≠ [] ∧ Text.wholeEscapes (t.take n) = true := by
  obtain ⟨k, -, hrest⟩ := Option.bind_eq_some_iff.mp h
  obtain ⟨m, hparen, hn⟩ := Option.bind_eq_some_iff.mp hrest
  cases hn
  obtain ⟨⟨u, hu⟩, rfl⟩ := literal_eq_some.mp hparen
  have htake : t.take (k + 1) = t.take k ++ ['('] := by
    rw [List.take_add, ← hu]
    rfl
  show t.take (k + 1) ≠ [] ∧ Text.wholeEscapes (t.take (k + 1)) = true
  rw [htake]
  exact ⟨by simp, Text.wholeEscapes_concat _ (by decide)⟩

/-! ### Joined parts -/

namespace Piece

variable {ps : List Piece}

/-- Two neighbouring parts one of which is no text. -/
def Apart (p q : Piece) : Prop :=
  ¬ (p.isRaw = true ∧ q.isRaw = true)

theorem join_raw (t : Text) (ps : List Piece) :
    ∃ u qs, join (.raw t :: ps) = .raw (t ++ u) :: qs := by
  unfold join
  split
  · exact ⟨_, _, rfl⟩
  · exact ⟨[], _, by rw [List.append_nil]⟩

/-- What holds of the texts of some parts holds of the joined texts. -/
theorem raw_of_join {P : Text → Prop} (happend : ∀ t u, P t → P u → P (t ++ u))
    (h : ∀ t, .raw t ∈ ps → P t) : ∀ t, .raw t ∈ join ps → P t := by
  induction ps with
  | nil =>
    intro t ht
    cases ht
  | cons p ps ih =>
    have hps := ih fun t ht => h t (List.mem_cons_of_mem _ ht)
    intro t ht
    cases p with
    | interpolation tokens =>
      rcases List.mem_cons.mp ht with hp | ht
      · cases hp
      · exact hps t ht
    | raw v =>
      have hv := h v List.mem_cons_self
      unfold join at ht
      split at ht
      · next u qs hjoin =>
        rw [hjoin] at hps
        rcases List.mem_cons.mp ht with hp | ht
        · cases hp
          exact happend v u hv (hps u List.mem_cons_self)
        · exact hps t (List.mem_cons_of_mem _ ht)
      · rcases List.mem_cons.mp ht with hp | ht
        · cases hp
          exact hv
        · exact hps t ht

/-- **No two pieces of text are left next to each other.** -/
theorem isChain_join (ps : List Piece) : (join ps).IsChain Apart := by
  induction ps with
  | nil => exact .nil
  | cons p ps ih =>
    cases p with
    | interpolation tokens =>
      refine List.isChain_cons.mpr ⟨?_, ih⟩
      rintro q - ⟨htext, -⟩
      cases htext
    | raw t =>
      unfold join
      split
      · next u qs hjoin =>
        -- Whether a part is text is all that counts.
        rw [hjoin] at ih
        obtain ⟨hfirst, hothers⟩ := List.isChain_cons.mp ih
        exact List.isChain_cons.mpr ⟨hfirst, hothers⟩
      · next hjoin =>
        refine List.isChain_cons.mpr ⟨?_, ih⟩
        rintro q hq ⟨-, htext⟩
        obtain ⟨qs, hqs⟩ := List.head?_eq_some_iff.mp hq
        cases q with
        | interpolation => cases htext
        | raw u => exact hjoin u qs hqs

/-- The pieces of a special function that starts at a place, in normal form. -/
structure NormalAt (start : Cursor) (ps : List Piece) : Prop where
  /-- The first one is text, and starts with the name of the function and its parenthesis. -/
  head : ∃ n text rest, Recognizer.specialHead start.rest = some n ∧ ps = .raw text :: rest ∧
    start.rest.take n <+: text
  nonempty : ∀ text, .raw text ∈ ps → text ≠ []
  apart : ps.IsChain Apart
  filled : ∀ tokens, .interpolation tokens ∈ ps → tokens ≠ []
  /-- Each piece was read where the one before it ends, and a text is what stands there. -/
  slices : ∃ texts stop, Spelling start ps texts stop
  escapes : ∀ text, .raw text ∈ ps → text.wholeEscapes = true

end Piece

/-- Each of some parts was read ahead of where they start. -/
theorem Spelling.spelt_of_mem {c d : Cursor} {ps : List Piece} {ts : List Text}
    (h : Spelling c ps ts d) {p : Piece} (hp : p ∈ ps) : ∃ e t f, c.Before e ∧ p.Spelt e t f := by
  induction h with
  | nil => cases hp
  | cons first _ ih =>
    rcases List.mem_cons.mp hp with rfl | hp
    · exact ⟨_, _, _, .refl _, first⟩
    · obtain ⟨e, t, f, hahead, hspelt⟩ := ih hp
      exact ⟨e, t, f, Cursor.Before.trans ⟨_, first.text_eq.1⟩ hahead, hspelt⟩

/-- The tokens of an interpolation were read by a lexer that had no token in view. -/
theorem Spelling.interpolation_of_mem {c d : Cursor} {ps : List Piece} {ts : List Text}
    (h : Spelling c ps ts d) {tokens : List Token} (hp : .interpolation tokens ∈ ps) :
    ∃ l m : Lexer, c.Before l.cursor ∧ l.lookahead = none ∧ l.interpolation = .ok tokens m := by
  obtain ⟨e, t, f, hahead, hspelt⟩ := h.spelt_of_mem hp
  cases hspelt with
  | interpolation body rest _ l m text place fresh read behind =>
    exact ⟨l, m, place ▸ hahead.advance 2, fresh, read⟩

namespace Lexer

variable {l m : Lexer} {t u : Token} {ts : List Token} {ahead : Lookahead} {d : Cursor}

/-! ### The pieces of a token -/

/-- Text is read by the escape or the character. -/
theorem ends_pieces_units {body stop : Cursor} (hstop : body.Before stop)
    (hparen : stop.past.head? = some ')') (options : Options) :
    Ends (Rules.pieces interpolation stop) (ofCursor body options)
      (fun parts m => (∃ texts, Spelling body parts texts m.cursor) ∧
        ∀ text, .raw text ∈ parts → Text.IsUnit text)
      (fun _ _ => True) := by
  have hstart : PartsTo body stop [] (ofCursor body options) :=
    ⟨rfl, ⟨[], .nil body⟩, nofun, fun h => absurd rfl h⟩
  rw [Rules.pieces_eq]
  refine Ends.unfold (fun found _ m => PartsTo body stop found m ∧
    ∀ text, .raw text ∈ found → Text.IsUnit text) ?_ ⟨hstart, nofun⟩
  rintro found _ m ⟨hparts, hunits⟩
  refine (ends_piece hstop hparen hparts).mono ?_ fun _ _ _ => trivial
  rintro ⟨now, next⟩ k hround
  cases next with
  | none =>
    obtain ⟨rfl, rfl, -⟩ := hround
    simp only [List.append_nil]
    exact ⟨hparts.spelt, hunits⟩
  | some _ =>
    obtain ⟨hsize, hread, hnow⟩ := hround
    simp only [if_pos hsize]
    refine ⟨hread, fun text hmem => ?_⟩
    rcases List.mem_append.mp hmem with hmem | hmem
    · exact hunits text hmem
    · exact hnow text hmem

/-- Parts that were read so are in normal form when they are joined behind the name of their
function. -/
theorem normalAt_join {start stop : Cursor} {head : Nat} {parts : List Piece} {texts : List Text}
    (begins : Recognizer.specialHead start.rest = some head)
    (hspelling : Spelling (start.advance head) parts texts stop)
    (hunits : ∀ text, .raw text ∈ parts → Text.IsUnit text) :
    Piece.NormalAt start (Piece.join (.raw (start.rest.take head) :: parts)) := by
  obtain ⟨us, hslices⟩ := (Spelling.cons (Piece.spelt_take start head) hspelling).join
  obtain ⟨u, qs, hjoin⟩ := Piece.join_raw (start.rest.take head) parts
  have hraw : ∀ text, .raw text ∈ Piece.join (.raw (start.rest.take head) :: parts) →
      text ≠ [] ∧ Text.wholeEscapes text = true := by
    apply Piece.raw_of_join
    · rintro t u ⟨ht, hwhole⟩ ⟨-, hwhole'⟩
      refine ⟨List.append_ne_nil_of_left_ne_nil ht u, ?_⟩
      rw [Text.wholeEscapes_append hwhole, hwhole']
    · intro text hmem
      rcases List.mem_cons.mp hmem with hhead | hmem
      · cases hhead
        exact Recognizer.whole_of_specialHead begins
      · exact (hunits text hmem).whole
  refine ⟨⟨head, _, qs, begins, hjoin, List.prefix_append _ u⟩, fun text hmem => (hraw text hmem).1,
    Piece.isChain_join _, fun tokens hmem => ?_, ⟨us, _, hslices⟩,
    fun text hmem => (hraw text hmem).2⟩
  obtain ⟨k, j, -, -, hread⟩ := hslices.interpolation_of_mem hmem
  obtain ⟨-, -, -, hne, -⟩ := interpolation_eq_ok.mp hread
  exact hne

/-- **The pieces of a special function are in normal form**, wherever a lexer finds it. -/
theorem Rules.TokenAt.normalAt (h : Rules.TokenAt interpolation l ahead d) {ps : List Piece}
    (hkind : ahead.token.kind = .special ps) : Piece.NormalAt ahead.start ps := by
  cases h with
  | segment c q x _ found =>
    obtain ⟨⟨v, hx⟩, -⟩ := Lexeme.segment?_eq_some found
    cases hx.symm.trans hkind
  | lexeme c x _ found => exact absurd hkind ((Lexeme.found_of_at? found).kind_ne_special ps)
  | special c head body parts inner _ begins balanced read =>
    cases hkind
    obtain ⟨v, w, hrest, rfl⟩ := Text.closingParen?_eq_some balanced
    obtain ⟨⟨texts, hspelling⟩, hunits⟩ :=
      (ends_pieces_units (Cursor.before_advance (v.length + 1) _)
      (Cursor.past_advance_head? hrest) l.options).of_ok read
    exact normalAt_join begins hspelling hunits

/-! ### Tokens inside others -/

/-- A lexer that can go on: its next token is found, or nothing is left. -/
def Readable (l : Lexer) : Prop :=
  l.pending = none ∧ l.tokenStart.atEnd = true ∨
    ∃ ahead d, Rules.TokenAt interpolation l ahead d ∧ ahead.start = l.tokenStart

/-- Behind each of the tokens consumed the next one can be read, if this is so behind the last. -/
theorem Consumes.readable (h : Consumes l ts m) (hfresh : l.lookahead = none) (hm : m.Readable) :
    l.Readable := by
  cases h with
  | nil => exact hm
  | cons first _ =>
    obtain ⟨ahead, htoken, -, hstart⟩ := token_of_next hfresh first
    exact .inr ⟨ahead, _, htoken, hstart⟩

/-- One of the tokens consumed. -/
theorem Consumes.next_of_append {us vs : List Token} (h : Consumes l (us ++ t :: vs) m)
    (hfresh : l.lookahead = none) (hm : m.Readable) :
    ∃ k n, Consumes l us k ∧ k.lookahead = none ∧ next k = .ok (some t) n ∧ n.Readable := by
  induction us generalizing l with
  | nil =>
    cases h with
    | cons first others =>
      exact ⟨l, _, .nil l, hfresh, first, others.readable (fresh_of_next first) hm⟩
  | cons u us ih =>
    cases h with
    | cons first others =>
      obtain ⟨k, n, hconsumes, hk, hnext, hn⟩ := ih others (fresh_of_next first)
      exact ⟨k, n, .cons first hconsumes, hk, hnext, hn⟩

/-- One of the tokens of an interpolation. -/
theorem next_of_interpolation (hfresh : l.lookahead = none) (h : interpolation l = .ok ts m)
    (ht : t ∈ ts) :
    ∃ k n, l.cursor.Before k.cursor ∧ k.lookahead = none ∧ next k = .ok (some t) n ∧
    n.Readable := by
  obtain ⟨k, -, hcollect, -⟩ := interpolation_eq_ok.mp h
  obtain ⟨n, _, hconsumes, -, hheld, -⟩ := (ends_collectUntil_consumes hfresh _ _).of_ok hcollect
  have hn : n.Readable := by
    rcases hheld with hend | ⟨ahead, d, htoken, hstart, -⟩
    · exact .inl hend
    · exact .inr ⟨ahead, d, htoken, hstart⟩
  obtain ⟨us, vs, rfl⟩ := List.append_of_mem ht
  obtain ⟨p, q, hfirst, hp, hnext, hq⟩ := hconsumes.next_of_append hfresh hn
  exact ⟨p, q, hfirst.before hfresh, hp, hnext, hq⟩

end Lexer

/-- A token itself, or one inside a special function, however deep. -/
inductive Token.Within (u : Token) : Token → Prop
  | self : Within u u
  | inside {t v : Token} {ps : List Piece} {ts : List Token} (special : t.kind = .special ps)
      (part : .interpolation ts ∈ ps) (mem : v ∈ ts) (within : Within u v) : Within u t

namespace Lexer

variable {l m : Lexer} {t u : Token} {ahead : Lookahead} {d : Cursor}

/-- **A token inside another was consumed by some lexer ahead of it**, which then can go on. -/
theorem next_of_within (h : u.Within t) (htoken : Rules.TokenAt interpolation l ahead d)
    (ht : ahead.token = t) :
    u = t ∨ ∃ k n, ahead.start.Before k.cursor ∧ k.lookahead = none ∧ next k = .ok (some u) n ∧
      n.Readable := by
  induction h generalizing l ahead d with
  | self => exact .inl rfl
  | @inside t v ps ts special part mem _ ih =>
    obtain ⟨texts, stop, hspelling⟩ := (htoken.normalAt (ht ▸ special)).slices
    obtain ⟨p, q, hbefore, hfresh, hread⟩ := hspelling.interpolation_of_mem part
    obtain ⟨k, n, hahead, hk, hnext, hn⟩ := next_of_interpolation hfresh hread mem
    have hplace := hbefore.trans hahead
    obtain ⟨ahead', htoken', hv, hstart⟩ := token_of_next hk hnext
    refine .inr ?_
    rcases ih htoken' hv with rfl | ⟨k', n', hahead', hk', hnext', hn'⟩
    · exact ⟨k, n, hplace, hk, hnext, hn⟩
    · rw [hstart] at hahead'
      exact ⟨k', n', hplace.trans ((before_tokenStart k).trans hahead'), hk', hnext', hn'⟩

/-- **The pieces of every special function are in normal form.**  Take a token that a lexer returns,
whatever it was asked before, and a special function that this token is or that is inside of it,
however deep.  Its first piece is text and starts with the name and the parenthesis; no piece is
empty, and no two pieces of text are next to each other; and the pieces lie in the text one behind
the other, every escape whole in one of them. -/
theorem special_in_normal_form {c : Cursor} {options : Options} {calls : List Call}
    (hnext : ((ofCursor c options).after calls).next = .ok (some t) m) (hu : u.Within t)
    {ps : List Piece} (hkind : u.kind = .special ps) :
    ∃ start, c.Before start ∧ u.location = start.location ∧ Piece.NormalAt start ps := by
  have hfresh : (ofCursor c options).lookahead = none := rfl
  obtain ⟨ts, hrun⟩ := run_after hfresh calls
  obtain ⟨n, ahead, hn, -, hview, ht, -⟩ := (ends_next hrun).of_ok hnext
  have hsound := hn.sound hfresh
  have htoken := hsound.view ahead hview
  have hplace : c.Before ahead.start := by
    have hfront := hsound.front
    rwa [front, hview] at hfront
  rcases next_of_within hu htoken ht with rfl | ⟨k, j, hahead, hk, hj, -⟩
  · subst ht
    exact ⟨ahead.start, hplace, htoken.location, htoken.normalAt hkind⟩
  · obtain ⟨ahead', htoken', rfl, hstart⟩ := token_of_next hk hj
    refine ⟨ahead'.start, ?_, htoken'.location, htoken'.normalAt hkind⟩
    rw [hstart]
    exact hplace.trans (hahead.trans (before_tokenStart k))

/-- A special function inside another, behind an escaped parenthesis. -/
theorem special_in_normal_form_nested :
    let ps : List Piece :=
      [.raw "calc(".toList, .interpolation [⟨.ident ['a'], ⟨1, 17, 17⟩⟩], .raw [')']]
    let u : Token := ⟨.special ps, ⟨1, 10, 10⟩⟩
    let t : Token := ⟨.special [.raw "calc(\\) ".toList, .interpolation [u], .raw [')']], ⟨1, 0, 0⟩⟩
    ∃ m start,
      ((ofText "calc(\\) #\x7bcalc(#\x7ba\x7d)\x7d)".toList 1 0 {}).after [.peek]).next =
      .ok (some t) m ∧
      u.Within t ∧ u.location = start.location ∧ Piece.NormalAt start ps := by
  intro ps u t
  obtain ⟨found, m, hnext, hfound⟩ := exists_of_answers
    (r := ((ofText "calc(\\) #\x7bcalc(#\x7ba\x7d)\x7d)".toList 1 0 {}).after [.peek]).next)
    (p := fun found _ => decide (found = some t)) (by decide +kernel)
  rw [of_decide_eq_true hfound] at hnext
  have hwithin : u.Within t := by
    apply Token.Within.inside rfl
    · exact List.mem_cons_of_mem _ List.mem_cons_self
    · exact List.mem_singleton_self u
    · exact .self
  obtain ⟨start, -, hplace, hnormal⟩ := special_in_normal_form hnext hwithin rfl
  exact ⟨m, start, hnext, hwithin, hplace, hnormal⟩

end Lexer
end Stylesheet
