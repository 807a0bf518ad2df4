import Stylesheet.Proofs.Collecting
import Stylesheet.Proofs.Cutoff
import Stylesheet.Proofs.Expressions
import Stylesheet.Proofs.SpecialFunction

/-!
# Expressions read on their own

The text of an expression, taken out of its document, gives the tokens of the expression again
(`tokens_of_text`).  The lexer of the document and that of the excerpt stand at places that have the
same text before them, up to the end of the excerpt, and differ in their byte offset by as much as
the expression lies inside of the document (`Lexer.Mirrors`).  A token that lies within the excerpt
is the same for both, and what they remember of it too (`Lexer.Mirrors.read`,
`Lexer.Mirrors.consume`).
-/
namespace Stylesheet

/-! ### Places -/

/-- The same place in a document in which the text begins a number of bytes on. -/
def Location.moved (n : Nat) (l : Location) : Location :=
  { l with offset := l.offset + n }

theorem Location.step_moved (n : Nat) (l : Location) (c : Char) :
    (l.moved n).step c = (l.step c).moved n := by
  unfold step moved
  split
  · simp only [Location.mk.injEq, true_and]
    omega
  · simp only [Location.mk.injEq, true_and]
    omega

theorem Location.after_moved (n : Nat) (l : Location) (t : Text) :
    (l.moved n).after t = (l.after t).moved n := by
  induction t generalizing l with
  | nil => rfl
  | cons c t ih => rw [after_cons, after_cons, step_moved, ih]

/-- The same token in a document in which the text begins a number of bytes on. -/
def Token.moved (n : Nat) (t : Token) : Token :=
  { t with location := t.location.moved n }

namespace Cursor

/-- A place in a document, and the same place in an excerpt that begins `n` bytes on in the document
and is followed there by `u`. -/
structure Mirrors (n : Nat) (u : Text) (c d : Cursor) : Prop where
  rest : c.rest = d.rest ++ u
  location : c.location = d.location.moved n

namespace Mirrors

variable {n k : Nat} {u v : Text} {c d : Cursor}

theorem offset (h : Mirrors n u c d) : c.offset = d.offset + n :=
  congrArg Location.offset h.location

theorem advance (h : Mirrors n u c d) (hk : k ≤ d.rest.length ∨ u = []) :
    Mirrors n u (c.advance k) (d.advance k) := by
  have htake : c.rest.take k = d.rest.take k ∧ c.rest.drop k = d.rest.drop k ++ u := by
    rw [h.rest]
    rcases hk with hk | rfl
    · exact ⟨List.take_append_of_le_length hk, List.drop_append_of_le_length hk⟩
    · simp only [List.append_nil, true_and]
  refine ⟨htake.2, ?_⟩
  rw [location_advance, location_advance, h.location, Location.after_moved, htake.1]

/-- What leads to a place inside of the excerpt lies inside of it. -/
theorem le_of_drop {t : Text} (hrest : (t ++ u).drop k = v ++ u) :
    k + v.length ≤ t.length ∨ u = [] := by
  rcases List.eq_nil_or_concat u with hu | ⟨w, x, hu⟩
  · exact .inr hu
  · have hlength := congrArg List.length hrest
    have hpos : 0 < u.length := by
      rw [hu, List.length_concat]
      exact Nat.succ_pos _
    rw [List.length_drop, List.length_append, List.length_append] at hlength
    exact .inl (by omega)

theorem le_of_rest (h : Mirrors n u c d) (hrest : (c.advance k).rest = v ++ u) :
    k ≤ d.rest.length ∨ u = [] := by
  rw [rest_advance, h.rest] at hrest
  rcases le_of_drop hrest with hle | hu
  · exact .inl (by omega)
  · exact .inr hu

/-- White space and comments inside of the excerpt. -/
theorem skip (h : Mirrors n u c d) (hrest : (c.skip Recognizer.trivia).rest = v ++ u) :
    Mirrors n u (c.skip Recognizer.trivia) (d.skip Recognizer.trivia) := by
  have hsame : Recognizer.trivia c.rest = Recognizer.trivia d.rest := by
    have hlength : c.rest.triviaLength = d.rest.triviaLength := by
      have hle : c.rest.triviaLength ≤ d.rest.length ∨ u = [] := by
        unfold Cursor.skip Cursor.pass? at hrest
        cases htrivia : Recognizer.trivia c.rest with
        | none =>
          refine .inl ?_
          have hzero : c.rest.triviaLength = 0 := by
            refine Nat.eq_zero_of_not_pos fun hpos => ?_
            rw [Recognizer.trivia_eq_some.mpr ⟨hpos, rfl⟩] at htrivia
            cases htrivia
          omega
        | some k =>
          rw [htrivia] at hrest
          rw [(Recognizer.trivia_eq_some.mp htrivia).2]
          exact h.le_of_rest hrest
      rcases hle with hle | rfl
      · rw [h.rest] at hle ⊢
        exact Text.triviaLength_within hle
      · rw [h.rest, List.append_nil]
    rw [Recognizer.trivia, Recognizer.trivia, hlength]
  unfold Cursor.skip Cursor.pass? at hrest ⊢
  rw [← hsame]
  cases htrivia : Recognizer.trivia c.rest with
  | none => exact h
  | some k =>
    rw [htrivia] at hrest
    exact h.advance (h.le_of_rest hrest)

end Mirrors
end Cursor

/-- Text that is joined was text before. -/
theorem Piece.isRaw_of_join {ps : List Piece} (h : ∀ p ∈ Piece.join ps, p.isRaw = true) :
    ∀ p ∈ ps, p.isRaw = true := by
  induction ps with
  | nil => exact nofun
  | cons p ps ih =>
    cases p with
    | interpolation ts => exact absurd (h (.interpolation ts) List.mem_cons_self) Bool.false_ne_true
    | raw t =>
      have hrest : ∀ q ∈ Piece.join ps, q.isRaw = true := by
        intro q hq
        unfold Piece.join at h
        split at h
        · next v qs hjoin =>
          rw [hjoin] at hq
          rcases List.mem_cons.mp hq with rfl | hq
          · rfl
          · exact h q (List.mem_cons_of_mem _ hq)
        · exact h q (List.mem_cons_of_mem _ hq)
      intro q hq
      rcases List.mem_cons.mp hq with rfl | hq
      · rfl
      · exact ih hrest q hq

/-! ### Lexers -/

namespace Lexer

open Rules (rawLength?)

/-- A lexer in a document and one in an excerpt of it that stands at the same place and remembers
the same. -/
structure Mirrors (n : Nat) (u : Text) (l m : Lexer) : Prop where
  cursor : l.cursor.Mirrors n u m.cursor
  options : l.options = m.options
  interpolations : l.interpolations = m.interpolations
  openSegment : l.openSegment = m.openSegment
  pending : l.pending = m.pending

variable {n : Nat} {u v : Text} {l m k : Lexer} {ahead : Lookahead}

/-! ### Reading -/

/-- **How a token comes about.**  This is `Rules.TokenAt` with the rules that were tried in vain. -/
theorem cases_of_read (h : Rules.read interpolation l = .ok (some ahead) k) :
    (∃ q x, l.pending = some q ∧ Lexeme.segment? q l.cursor.rest = some x ∧
      ahead = x.ahead l.cursor ∧ k.cursor = l.cursor.advance x.length) ∨
    l.pending = none ∧ ∃ c, c = l.skipTrivia.cursor ∧ c.atEnd = false ∧
      ((∃ x, Lexeme.at? (0 < l.depth) c.rest = some x ∧ ahead = x.ahead c ∧
          k.cursor = c.advance x.length) ∨
        Lexeme.at? (0 < l.depth) c.rest = none ∧ ∃ head body parts inner,
          Recognizer.specialHead c.rest = some head ∧
          (c.advance head).rest.balancedLength? = some body ∧
          Rules.pieces interpolation ((c.advance head).advance body)
            (ofCursor (c.advance head) l.options) = .ok parts inner ∧
          ahead = ⟨⟨.special (Piece.join (.raw (c.rest.take head) :: parts)), c.location⟩, c, none,
            inner.warnings⟩ ∧
          k.cursor = (c.advance head).advance body) := by
  rw [Rules.read_apply] at h
  cases hpending : l.pending with
  | some q =>
    rw [hpending] at h
    simp only at h
    split at h
    · next x hx =>
      cases h
      exact .inl ⟨q, x, rfl, hx, rfl, rfl⟩
    · cases h
  | none =>
    rw [hpending] at h
    simp only at h
    split at h
    · cases h
    · next hend =>
      refine .inr ⟨rfl, _, rfl, Bool.eq_false_iff.mpr hend, ?_⟩
      rw [Rules.token_apply, (moved_skipTrivia l).depth] at h
      cases hfound : Lexeme.at? (0 < l.depth) l.skipTrivia.cursor.rest with
      | some x =>
        rw [hfound] at h
        cases h
        exact .inl ⟨x, rfl, rfl, rfl⟩
      | none =>
        rw [hfound] at h
        refine .inr ⟨rfl, ?_⟩
        cases hhead : Recognizer.specialHead l.skipTrivia.cursor.rest with
        | none =>
          rw [hhead] at h
          cases h
        | some head =>
          rw [hhead] at h
          simp only at h
          have hspecial := Rules.ends_special interpolation head l.skipTrivia
          cases hrun : Rules.special interpolation head l.skipTrivia with
          | error e m =>
            rw [hrun] at h
            cases h
          | ok r m =>
            rw [hrun] at h
            obtain ⟨body, parts, inner, hbody, hpieces, rfl, rfl⟩ := hspecial.of_ok hrun
            cases h
            exact ⟨head, body, parts, inner, rfl, hbody, hpieces, rfl, rfl⟩

theorem read_special (hpending : l.pending = none) (hend : l.skipTrivia.cursor.atEnd = false)
    (hnone : Lexeme.at? (0 < l.depth) l.skipTrivia.cursor.rest = none) {head body : Nat}
    (hhead : Recognizer.specialHead l.skipTrivia.cursor.rest = some head)
    (hbody : (l.skipTrivia.cursor.advance head).rest.balancedLength? = some body)
    {parts : List Piece} {inner : Lexer}
    (hpieces : Rules.pieces interpolation ((l.skipTrivia.cursor.advance head).advance body)
      (ofCursor (l.skipTrivia.cursor.advance head) l.options) = .ok parts inner) :
    Rules.read interpolation l =
      .ok (some ⟨⟨.special (Piece.join (.raw (l.skipTrivia.cursor.rest.take head) :: parts)),
          l.skipTrivia.cursor.location⟩, l.skipTrivia.cursor, none, inner.warnings⟩)
        { l with cursor := (l.skipTrivia.cursor.advance head).advance body, expected := none } := by
  have hoptions : l.skipTrivia.options = l.options := rfl
  rw [Rules.read_apply, hpending]
  simp only [hend, Bool.false_eq_true, if_false, Rules.token_apply,
    (moved_skipTrivia l).depth, hnone, hhead, Rules.special_apply, hbody, hoptions, hpieces]
  rfl

/-! ### Special functions without interpolations -/

theorem rawLength?_cons (a : Char) (t : Text) :
    rawLength? (a :: t) =
      if a = '\\' then some 2 else if a = '#' ∧ t.head? = some '{' then none else some 1 := by
  unfold rawLength?
  split
  · next h =>
    obtain ⟨rfl, rfl⟩ := List.cons.inj h
    rfl
  · next h =>
    obtain ⟨rfl, rfl⟩ := List.cons.inj h
    rfl
  · next hescape hopen =>
    rw [if_neg (fun ha => hescape t (by rw [ha])), if_neg]
    rintro ⟨rfl, hbrace⟩
    obtain ⟨v, rfl⟩ := List.head?_eq_some_iff.mp hbrace
    exact hopen v rfl

/-- What opens no interpolation opens none in a text that is cut off either. -/
theorem rawLength?_within {t : Text} {j : Nat} (ht : 0 < t.length)
    (h : rawLength? (t ++ u) = some j) : rawLength? t = some j := by
  obtain ⟨a, t, rfl⟩ := List.exists_cons_of_length_pos ht
  rw [List.cons_append, rawLength?_cons] at h
  rw [rawLength?_cons]
  by_cases ha : a = '\\'
  · rw [if_pos ha] at h ⊢
    exact h
  · rw [if_neg ha] at h ⊢
    by_cases hopen : a = '#' ∧ (t ++ u).head? = some '{'
    · rw [if_pos hopen] at h
      cases h
    · rw [if_neg hopen] at h
      rw [if_neg, h]
      rintro ⟨rfl, hbrace⟩
      obtain ⟨v, rfl⟩ := List.head?_eq_some_iff.mp hbrace
      exact hopen ⟨rfl, rfl⟩

theorem size_advance_lt (hfresh : l.lookahead = none) {j : Nat} (hj : 0 < j)
    (hleft : 0 < l.cursor.left) :
    ({ l with cursor := l.cursor.advance j } : Lexer).size < l.size := by
  rw [size, size, front_of_lookahead hfresh,
    front_of_lookahead (l := { l with cursor := l.cursor.advance j }) hfresh]
  show 2 * (l.cursor.left - j) + (if l.pending.isSome then 1 else 0) < _
  omega

section
variable {stop : Cursor} {parts : List Piece}

theorem pieces_done (h : stop.offset ≤ l.cursor.offset) :
    Rules.pieces interpolation stop l = .ok [] l := by
  rw [Rules.pieces_eq, unfold_apply, Rules.piece, if_pos h]

theorem pieces_raw (hend : ¬ stop.offset ≤ l.cursor.offset) {j : Nat}
    (hraw : rawLength? l.cursor.rest = some j) (hfresh : l.lookahead = none) (hj : 0 < j)
    (hleft : 0 < l.cursor.left) :
    Rules.pieces interpolation stop l =
      match Rules.pieces interpolation stop { l with cursor := l.cursor.advance j } with
      | .ok more k => .ok (.raw (l.cursor.rest.take j) :: more) k
      | .error e k => .error e k := by
  rw [Rules.pieces_eq, unfold_apply, Rules.piece, if_neg hend, hraw]
  simp only
  rw [if_pos (size_advance_lt hfresh hj hleft)]
  cases unfold size (fun _ => Rules.piece interpolation stop) ()
    { l with cursor := l.cursor.advance j } <;> rfl

theorem pieces_interpolation (hend : ¬ stop.offset ≤ l.cursor.offset)
    (hraw : rawLength? l.cursor.rest = none)
    (h : Rules.pieces interpolation stop l = .ok parts k) :
    ∃ tokens, .interpolation tokens ∈ parts := by
  rw [Rules.pieces_eq, unfold_apply, Rules.piece, if_neg hend, hraw] at h
  simp only at h
  cases hrun : interpolation { l with cursor := l.cursor.advance 2 } with
  | error e m =>
    rw [hrun] at h
    cases h
  | ok tokens m =>
    rw [hrun] at h
    refine ⟨tokens, ?_⟩
    simp only at h
    split at h
    · split at h
      · cases h
      · cases h
        exact List.mem_cons_self
    · cases h
      exact List.mem_cons_self

end

/-- **The parts of a special function are the same in an excerpt**, if they are all text. -/
theorem pieces_mirrors {stop stop' : Cursor} (hstop : stop.Mirrors n u stop')
    (hparen : stop.past.head? = some ')') {parts : List Piece}
    (hcursor : l.cursor.Mirrors n u m.cursor) (hbefore : l.cursor.Before stop)
    (hl : l.lookahead = none) (hm : m.lookahead = none)
    (h : Rules.pieces interpolation stop l = .ok parts k) (hraw : ∀ p ∈ parts, p.isRaw = true) :
    ∃ k', Rules.pieces interpolation stop' m = .ok parts k' := by
  -- Each part that is text leaves less to read, in both texts.
  induction hleft : l.cursor.left using Nat.strongRecOn generalizing l m parts with
  | ind left ih =>
    have hoffset := hcursor.offset
    have hoffset' := hstop.offset
    by_cases hend : stop.offset ≤ l.cursor.offset
    · rw [pieces_done hend] at h
      cases h
      exact ⟨m, pieces_done (by omega)⟩
    · have hend' : ¬ stop'.offset ≤ m.cursor.offset := by omega
      have hne : l.cursor ≠ stop := fun heq => hend (Nat.le_of_eq (by rw [heq]))
      cases hlength : rawLength? l.cursor.rest with
      | none =>
        obtain ⟨tokens, hmem⟩ := pieces_interpolation hend hlength h
        exact absurd (hraw _ hmem) Bool.false_ne_true
      | some j =>
        obtain ⟨hj, hjle, hgoes⟩ := before_raw hbefore hne hparen hlength
        have hless := hgoes.left_le
        have hwithin : j ≤ m.cursor.rest.length := by
          have hlong := congrArg List.length hcursor.rest
          have hshort := congrArg List.length hstop.rest
          rw [List.length_append] at hlong hshort
          rw [stop.left_eq, (l.cursor.advance j).left_eq, Cursor.rest_advance,
            List.length_drop] at hless
          omega
        have hlength' : rawLength? m.cursor.rest = some j := by
          rw [hcursor.rest] at hlength
          exact rawLength?_within (by omega) hlength
        have hlpos : 0 < l.cursor.left := by
          rw [l.cursor.left_eq]
          omega
        have hmpos : 0 < m.cursor.left := by
          rw [m.cursor.left_eq]
          omega
        rw [pieces_raw hend hlength hl hj hlpos] at h
        cases hrest : Rules.pieces interpolation stop { l with cursor := l.cursor.advance j } with
        | error e k =>
          rw [hrest] at h
          cases h
        | ok more k =>
          rw [hrest] at h
          cases h
          have hadvance :
              Cursor.Mirrors n u ({ l with cursor := l.cursor.advance j } : Lexer).cursor
              ({ m with cursor := m.cursor.advance j } : Lexer).cursor :=
                hcursor.advance (.inl hwithin)
          have hlt : l.cursor.left - j < left := by omega
          obtain ⟨k', hk'⟩ := ih _ hlt hadvance hgoes hl hm hrest
            (fun p hp => hraw p (List.mem_cons_of_mem _ hp)) rfl
          refine ⟨k', ?_⟩
          rw [pieces_raw hend' hlength' hm hj hmpos, hk']
          simp only
          rw [hcursor.rest, List.take_append_of_le_length hwithin]

/-! ### The same token -/

theorem Mirrors.moved {k' : Lexer} (h : l.Mirrors n u m) (hl : Moved l k) (hm : Moved m k')
    (hcursor : k.cursor.Mirrors n u k'.cursor) : k.Mirrors n u k' := by
  have hpending : k.pending = k'.pending := by rw [hl.pending, hm.pending, h.pending]
  obtain ⟨-, _, hl⟩ := hl
  obtain ⟨-, _, hm⟩ := hm
  refine ⟨hcursor, ?_, ?_, ?_, hpending⟩
  · rw [hl, hm]
    exact h.options
  · rw [hl, hm]
    exact h.interpolations
  · rw [hl, hm]
    exact h.openSegment

theorem Mirrors.depth (h : l.Mirrors n u m) : l.depth = m.depth := by
  rw [Lexer.depth, Lexer.depth, h.interpolations]

/-- A lexeme within the excerpt. -/
theorem reach_of_drop {t : Text} {x : Lexeme} (hrest : (t ++ u).drop x.length = v ++ u)
    (hcut : x.opens.isSome = true → 2 ≤ v.length) : x.reach ≤ t.length ∨ u = [] := by
  rcases Cursor.Mirrors.le_of_drop hrest with hle | hu
  · refine .inl ?_
    unfold Lexeme.reach
    split
    · next hopens =>
      have := hcut hopens
      omega
    · omega
  · exact .inr hu

section
variable (h : l.Mirrors n u m)
include h

theorem Mirrors.skipTrivia {d : Cursor} (hbefore : l.skipTrivia.cursor.Before d)
    (hrest : d.rest = v ++ u) : l.skipTrivia.cursor.Mirrors n u m.skipTrivia.cursor := by
  refine h.cursor.skip (v := d.textSince l.skipTrivia.cursor ++ v) ?_
  rw [List.append_assoc, ← hrest]
  exact hbefore.rest_eq

theorem Mirrors.read_segment {q : Quote} {x : Lexeme}
    (hfound : Lexeme.segment? q l.cursor.rest = some x)
    (hrest : (l.cursor.advance x.length).rest = v ++ u)
    (hcut : x.opens.isSome = true → 2 ≤ v.length) : Lexeme.segment? q m.cursor.rest = some x := by
  rw [Cursor.rest_advance, h.cursor.rest] at hrest
  rw [h.cursor.rest] at hfound
  rcases reach_of_drop hrest hcut with hle | rfl
  · exact (Lexeme.settled_segment q).within hfound hle
  · rwa [List.append_nil] at hfound

theorem Mirrors.read_lexeme {c : Cursor} {x : Lexeme}
    (hcursor : c.Mirrors n u m.skipTrivia.cursor)
    (hfound : Lexeme.at? (0 < l.depth) c.rest = some x) (hrest : (c.advance x.length).rest = v ++ u)
    (hcut : x.opens.isSome = true → 2 ≤ v.length) (hu : u.head? ≠ some '\\') :
    m.skipTrivia.cursor.atEnd = false ∧
      Lexeme.at? (0 < m.depth) m.skipTrivia.cursor.rest = some x := by
  rw [Cursor.rest_advance, hcursor.rest] at hrest
  rw [hcursor.rest, h.depth] at hfound
  have hsame : Lexeme.at? (0 < m.depth) m.skipTrivia.cursor.rest = some x := by
    rcases reach_of_drop hrest hcut with hle | rfl
    · exact Lexeme.at?_append hfound hle hu
    · rwa [List.append_nil] at hfound
  refine ⟨?_, hsame⟩
  rw [Cursor.atEnd]
  cases hempty : m.skipTrivia.cursor.rest with
  | nil =>
    rw [hempty, Lexeme.at?_nil] at hsame
    cases hsame
  | cons => rfl

omit h in
/-- A special function within the excerpt begins and ends there. -/
theorem special_mirrors {c d : Cursor} {head body : Nat} (hcursor : c.Mirrors n u d)
    (hhead : Recognizer.specialHead c.rest = some head)
    (hbody : (c.advance head).rest.balancedLength? = some body)
    (hrest : ((c.advance head).advance body).rest = v ++ u) :
    head + body ≤ d.rest.length ∧ (d.advance head).rest.balancedLength? = some body ∧
      ((c.advance head).advance body).past.head? = some ')' := by
  have hwithin : head + body ≤ d.rest.length := by
    have hfirst := Recognizer.stable_specialHead.bounded hhead
    have hsecond := (Text.closingParen?_take [] hbody).2.1
    rw [Cursor.rest_advance, List.length_drop] at hsecond
    rw [Cursor.advance_advance] at hrest
    rcases hcursor.le_of_rest hrest with hle | rfl
    · exact hle
    · rw [hcursor.rest, List.append_nil] at hfirst hsecond
      omega
  refine ⟨hwithin, ?_, ?_⟩
  · have hbehind : (c.advance head).rest = (d.advance head).rest ++ u :=
      (hcursor.advance (.inl (by omega))).rest
    have hle : body ≤ (d.advance head).rest.length := by
      rw [Cursor.rest_advance, List.length_drop]
      omega
    have htake := (Text.closingParen?_take ((d.advance head).rest.drop body) hbody).2.2
    rwa [hbehind, List.take_append_of_le_length hle, List.take_append_drop] at htake
  · obtain ⟨w, z, hw, rfl⟩ := Text.closingParen?_eq_some hbody
    exact Cursor.past_advance_head? hw

/-- **A token within an excerpt is the same there.** -/
theorem Mirrors.read (hread : Rules.read interpolation l = .ok (some ahead) k)
    (hrest : k.cursor.rest = v ++ u) (hcut : ahead.opens.isSome = true → 2 ≤ v.length)
    (hu : u.head? ≠ some '\\')
    (hraw : ∀ ps, ahead.token.kind = .special ps → ∀ p ∈ ps, p.isRaw = true) :
    ∃ ahead' k', Rules.read interpolation m = .ok (some ahead') k' ∧
      ahead.token = ahead'.token.moved n ∧ ahead.opens = ahead'.opens ∧ k.Mirrors n u k' := by
  have hmoved := ((Rules.ends_read interpolation l).of_ok hread).1
  have hsame : ∀ {x : Lexeme} {c d : Cursor}, c.Mirrors n u d →
      (x.ahead c).token = (x.ahead d).token.moved n := by
    intro x c d hcd
    show Token.mk x.kind c.location = _
    rw [hcd.location]
    rfl
  rcases cases_of_read hread with
    ⟨q, x, hpending, hfound, rfl, hk⟩ | ⟨hpending, c, hc, hend, hfound⟩
  · -- The next segment of a string.
    rw [hk] at hrest
    have hfound' := h.read_segment hfound hrest hcut
    have hread' := Rules.read_segment interpolation (h.pending ▸ hpending) hfound'
    refine ⟨_, _, hread', hsame h.cursor, rfl,
      h.moved hmoved ((Rules.ends_read _ m).of_ok hread').1 ?_⟩
    rw [hk]
    exact h.cursor.advance (h.cursor.le_of_rest hrest)
  · have hpending' : m.pending = none := h.pending ▸ hpending
    rcases hfound with
      ⟨x, hfound, rfl, hk⟩ | ⟨hnone, head, body, parts, inner, hhead, hbody, hpieces, rfl, hk⟩
    · -- A lexeme.
      rw [hk] at hrest
      have hcursor : c.Mirrors n u m.skipTrivia.cursor :=
        hc ▸ h.skipTrivia (hc ▸ Cursor.before_advance x.length c) hrest
      obtain ⟨hend', hfound'⟩ := h.read_lexeme hcursor hfound hrest hcut hu
      have hread' := Rules.read_lexeme interpolation hpending' hend' hfound'
      refine ⟨_, _, hread', hsame hcursor, rfl,
        h.moved hmoved ((Rules.ends_read _ m).of_ok hread').1 ?_⟩
      rw [hk]
      exact hcursor.advance (hcursor.le_of_rest hrest)
    · -- A special function.
      rw [hk] at hrest
      have hbefore : c.Before ((c.advance head).advance body) :=
        (Cursor.before_advance head c).advance body
      have hcursor : c.Mirrors n u m.skipTrivia.cursor := hc ▸ h.skipTrivia (hc ▸ hbefore) hrest
      obtain ⟨hwithin, hbody', hparen⟩ := special_mirrors hcursor hhead hbody hrest
      have hbegin := hcursor.advance (k := head) (.inl (by omega))
      have hstop : Cursor.Mirrors n u ((c.advance head).advance body)
          ((m.skipTrivia.cursor.advance head).advance body) := by
        rw [Cursor.advance_advance, Cursor.advance_advance]
        exact hcursor.advance (.inl hwithin)
      have hleading := (Option.or_eq_none_iff.mp hnone).1
      rw [hcursor.rest] at hleading hhead
      obtain ⟨hleading', hhead'⟩ := Lexeme.specialHead_append hleading hhead (by omega)
      have hnone' : Lexeme.at? (0 < m.depth) m.skipTrivia.cursor.rest = none := by
        rw [Lexeme.at?, hleading', hhead']
        rfl
      have hend' : m.skipTrivia.cursor.atEnd = false := by
        obtain ⟨a, w, hw, -⟩ := Lexeme.head?_of_specialHead hhead'
        rw [Cursor.atEnd, hw]
        rfl
      obtain ⟨inner', hpieces'⟩ := pieces_mirrors hstop hparen
        (m := ofCursor (m.skipTrivia.cursor.advance head) m.options) hbegin
        (Cursor.before_advance body _) rfl rfl hpieces fun p hp =>
          Piece.isRaw_of_join (hraw _ rfl) p (List.mem_cons_of_mem _ hp)
      have hread' := read_special hpending' hend' hnone' hhead' hbody' hpieces'
      refine ⟨_, _, hread', ?_, rfl, h.moved hmoved ((Rules.ends_read _ m).of_ok hread').1 ?_⟩
      · show Token.mk _ c.location = _
        rw [hcursor.location, hcursor.rest, List.take_append_of_le_length (by omega)]
        rfl
      · rw [hk]
        exact hstop

end

/-! ### Consuming the same token -/

theorem resume_note {t : Token} (hclose : t.kind ≠ .op .closeInterpolation) :
    (l.note t).resume = none := by
  unfold note warn
  dsimp only
  split
  · split <;> rfl
  · next h => exact absurd h hclose
  · split <;> rfl
  · rfl

theorem note_close_nil {t : Token} (h : t.kind = .op .closeInterpolation)
    (hnil : l.interpolations = []) : l.note t = { l with resume := none } := by
  unfold note pop
  rw [h]
  simp only [hnil]

/-- What a token does to the open interpolations depends on its kind and on them. -/
theorem note_congr {t t' : Token} (hkind : t.kind = t'.kind)
    (hinterpolations : l.interpolations = m.interpolations)
    (hsegment : l.openSegment = m.openSegment) :
    (l.note t).interpolations = (m.note t').interpolations ∧
      (l.note t).openSegment = (m.note t').openSegment ∧
      (l.note t).resume = (m.note t').resume := by
  by_cases hopen : t.kind = .op .openInterpolation
  · rw [note_open hopen, note_open (hkind ▸ hopen), hsegment]
    by_cases hcut : m.openSegment = true
    · rw [if_pos hcut, if_pos hcut]
      exact ⟨hinterpolations, rfl, rfl⟩
    · rw [if_neg hcut, if_neg hcut]
      exact ⟨congrArg (none :: ·) hinterpolations, rfl, rfl⟩
  by_cases hclose : t.kind = .op .closeInterpolation
  · cases hm : m.interpolations with
    | nil =>
      rw [note_close_nil hclose (hinterpolations.trans hm), note_close_nil (hkind ▸ hclose) hm]
      exact ⟨hinterpolations, hsegment, rfl⟩
    | cons around outer =>
      rw [note_close hclose (hinterpolations.trans hm), note_close (hkind ▸ hclose) hm]
      exact ⟨rfl, hsegment, rfl⟩
  · obtain ⟨hl, hlsegment⟩ := interpolations_note (l := l) hopen hclose
    obtain ⟨hm, hmsegment⟩ := interpolations_note (l := m) (hkind ▸ hopen) (hkind ▸ hclose)
    rw [hl, hm, hlsegment, hmsegment, resume_note hclose, resume_note (hkind ▸ hclose)]
    exact ⟨hinterpolations, hsegment, rfl⟩
theorem Mirrors.consume {ahead' : Lookahead} (h : l.Mirrors n u m)
    (hkind : ahead.token.kind = ahead'.token.kind) (hopens : ahead.opens = ahead'.opens) :
    (l.consume ahead).Mirrors n u (m.consume ahead') := by
  obtain ⟨hinterpolations, hsegment, hresume⟩ := note_congr hkind h.interpolations h.openSegment
  have hop : ahead.token.isOp .closeInterpolation = ahead'.token.isOp .closeInterpolation := by
    rw [Token.isOp, Token.isOp, hkind]
  have hcursor : (l.consume ahead).cursor.Mirrors n u (m.consume ahead').cursor := by
    rw [cursor_consume, cursor_consume]
    exact h.cursor
  have hoptions : (l.consume ahead).options = (m.consume ahead').options := by
    rw [options_consume, options_consume, h.options]
  have hpending :
      (if ahead.token.isOp .closeInterpolation then (l.note ahead.token).resume else none) =
      if ahead'.token.isOp .closeInterpolation then (m.note ahead'.token).resume else none := by
    rw [hop, hresume]
  cases hcut : ahead.opens with
  | none =>
    rw [consume_eq hcut, consume_eq (hopens ▸ hcut)] at hcursor hoptions ⊢
    exact ⟨hcursor, hoptions, hinterpolations, hsegment, hpending⟩
  | some q =>
    rw [consume_cut hcut, consume_cut (hopens ▸ hcut)] at hcursor hoptions ⊢
    exact ⟨hcursor, hoptions, congrArg (some q :: ·) hinterpolations, rfl, hpending⟩

/-! ### All tokens of an excerpt -/

/-- A string that is cut short is followed by the opening of its interpolation. -/
theorem cut_of_read (hread : Rules.read interpolation l = .ok (some ahead) k) {q : Quote}
    (hopens : ahead.opens = some q) :
    ahead.token.kind ≠ .op .closeInterpolation ∧ ∃ t, k.cursor.rest = '#' :: '{' :: t := by
  obtain ⟨-, -, htoken⟩ := (Rules.ends_read interpolation l).of_ok hread
  have hsome : ahead.opens ≠ none := by
    rw [hopens]
    exact nofun
  cases effect_of_tokenAt htoken with
  | opens _ whole => exact absurd whole hsome
  | closes _ whole => exact absurd whole hsome
  | nothing _ _ whole => exact absurd whole hsome
  | cuts v q kind _ goesOn =>
    refine ⟨?_, goesOn⟩
    rw [kind]
    exact nofun

/-- Behind a string that is cut short the opening of its interpolation is consumed. -/
theorem Consumes.left_of_cut {ts : List Token} (h : Consumes l ts m) (hfresh : l.lookahead = none)
    (hpending : l.pending = none) {t : Text} (hrest : l.cursor.rest = '#' :: '{' :: t)
    (hcut : l.openSegment = true) (hwhole : m.openSegment = false) :
    m.cursor.left + 2 ≤ l.cursor.left := by
  cases h with
  | nil =>
    rw [hcut] at hwhole
    cases hwhole
  | @cons _ k _ t' ts first others =>
    have hskip : l.skipTrivia = l :=
      skipTrivia_eq (by rw [hrest, Recognizer.trivia_eq_none (by decide) (by decide)])
    have hread := Rules.read_lexeme interpolation hpending (by rw [hskip, Cursor.atEnd, hrest]; rfl)
      (by rw [hskip, hrest]; exact Lexeme.at?_openInterpolation _ t)
    have hnext : next l = _ := Rules.next_of_read hfresh hread
    rw [hskip] at hnext
    cases hnext.symm.trans first
    have hbefore := (others.before rfl).left_le
    rw [cursor_consume] at hbefore
    replace hbefore : m.cursor.left ≤ l.cursor.left - 2 := hbefore
    have hleft := l.cursor.left_eq
    rw [hrest, List.length_cons, List.length_cons] at hleft
    omega

/-- **The tokens within an excerpt are the same there.**  They end where the excerpt does, and not
at a string that is cut short. -/
theorem Consumes.mirrors {ts : List Token} (h : Consumes l ts k) (hm : l.Mirrors n u m)
    (hl : l.lookahead = none) (hfresh : m.lookahead = none) (hrest : k.cursor.rest = u)
    (hwhole : k.openSegment = false) (hu : u.head? ≠ some '\\')
    (hraw : ∀ t ∈ ts, ∀ ps, t.kind = .special ps → ∀ p ∈ ps, p.isRaw = true) :
    ∃ us k', Consumes m us k' ∧ ts = us.map (·.moved n) ∧ k.Mirrors n u k' := by
  induction h generalizing m with
  | nil => exact ⟨[], m, .nil m, rfl, hm⟩
  | @cons l l' k t ts first others ih =>
    obtain ⟨ahead, i, hread, rfl, rfl⟩ := exists_of_next hl first
    have hbefore := others.before rfl
    rw [cursor_consume] at hbefore
    have hspan := hbefore.rest_eq
    rw [hrest] at hspan
    have hcut : ahead.opens.isSome = true → 2 ≤ (k.cursor.textSince i.cursor).length := by
      intro hopens
      obtain ⟨q, hopens⟩ := Option.isSome_iff_exists.mp hopens
      obtain ⟨hkind, t, hgoesOn⟩ := cut_of_read hread hopens
      have hpending := pending_consume i ahead hkind
      have hleft := others.left_of_cut rfl hpending (by rwa [cursor_consume])
        (by rw [Lexer.consume_cut hopens]) hwhole
      rw [cursor_consume] at hleft
      have hlength := congrArg List.length hspan
      rw [List.length_append, ← hrest, ← i.cursor.left_eq, ← k.cursor.left_eq] at hlength
      omega
    obtain ⟨ahead', i', hread', htoken, hopens, hi⟩ :=
      hm.read hread hspan hcut hu (hraw _ List.mem_cons_self)
    have hnext' : next m = _ := Rules.next_of_read hfresh hread'
    have hkind : ahead.token.kind = ahead'.token.kind := by
      rw [htoken]
      rfl
    obtain ⟨us, k', hus, rfl, hk⟩ := ih (hi.consume hkind hopens) rfl rfl hrest hwhole
      fun t ht => hraw t (List.mem_cons_of_mem _ ht)
    exact ⟨ahead'.token :: us, k', .cons hnext' hus, by rw [htoken]; rfl, hk⟩

end Lexer

/-! ### The text of an expression -/

namespace Grammar

open Lexer (Consumes)

/-- Where an expression ends, no backslash goes on with its last token. -/
theorem head_of_heldUp {stop : Stop} {nesting : Nesting} {l : Lexer}
    (h : Lexer.HeldUp (Nesting.after stop) nesting l) : l.cursor.rest.head? ≠ some '\\' := by
  intro hhead
  obtain ⟨t, ht⟩ := List.head?_eq_some_iff.mp hhead
  -- What begins with a backslash is no white space, so the next token would start with it.
  have hplace : l.tokenStart = l.cursor := by
    have hskip : l.skipTrivia = l :=
      Lexer.skipTrivia_eq (by rw [ht, Recognizer.trivia_eq_none (by decide) (by decide)])
    rw [Lexer.tokenStart, hskip, ite_self]
  rcases h with ⟨-, hend⟩ | ⟨ahead, d, htoken, hstart, hafter⟩
  · rw [hplace, Cursor.atEnd, ht] at hend
    cases hend
  · obtain ⟨x, hx, hcases⟩ := head_of_after_eq_none htoken hafter
    rw [hstart, hplace, hhead] at hx
    cases hx
    rcases hcases with h | ⟨h, -⟩ | ⟨h, -⟩ <;> exact absurd h (by decide)

/-- What the lexer of an expression comes to. -/
theorem consumes_of_collectUntil {stop : Stop} {d : Cursor} {options : Options}
    {tokens : List Token} {l : Lexer}
    (h : Lexer.collectUntil (Nesting.after stop) {} (.ofCursor d options) = .ok tokens l)
    (hne : tokens ≠ []) :
    ∃ k, Consumes (.ofCursor d options) tokens k ∧ k.cursor = l.previousEnd ∧ k.pending = none ∧
      k.openSegment = false ∧ k.cursor.rest.head? ≠ some '\\' := by
  obtain ⟨hwhole, -, -, -⟩ := leavesOpen_of_collectUntil h
  obtain ⟨k, nesting, hconsumes, -, hheld, hl⟩ :=
    (Lexer.ends_collectUntil_consumes rfl (Nesting.after stop) {}).of_ok h
  have hend := hconsumes.previousEnd hne
  rw [hl] at hwhole
  refine ⟨k, hconsumes, ?_, hwhole.1, hwhole.2, head_of_heldUp hheld⟩
  rw [hl, ← hend]
  rfl

end Grammar

/-- **The text of an expression has its tokens.**  Read on its own, from the line and column of its
first token, the text of an expression of a document gives the tokens of the expression, each as
many bytes nearer to the start as the first one lies inside of the document.  That is so unless one
of them is a special function with interpolations. -/
theorem tokens_of_text {source : Text} {options : Options} {tree : Node}
    (h : (parse source options).result = .ok tree) {e : Expression} (he : e ∈ tree.expressions)
    (hraw : ∀ t ∈ e.tokens, ∀ ps, t.kind = .special ps → ∀ p ∈ ps, p.isRaw = true) :
    ∃ first others, e.tokens = first :: others ∧ ∃ ts l,
      Lexer.all (.ofText e.text first.location.line first.location.column options) = .ok ts l ∧
        e.tokens = ts.map (·.moved first.location.offset) := by
  obtain ⟨stop, d, l, hd, hlexer, htext, -, htrivia, hne⟩ := written_of_parse h e he
  obtain ⟨k, hconsumes, hend, hpending, hwhole, hhead⟩ :=
    Grammar.consumes_of_collectUntil hlexer hne
  obtain ⟨first, others, htokens⟩ := List.exists_cons_of_ne_nil hne
  refine ⟨first, others, htokens, ?_⟩
  -- The first token starts where its lexer did.
  have hplace : first.location = d.location := by
    rw [htokens] at hconsumes
    cases hconsumes with
    | cons hfirst =>
      obtain ⟨ahead, j, hread, rfl, -⟩ := Lexer.exists_of_next rfl hfirst
      obtain ⟨-, hstart, htoken⟩ := (Lexer.Rules.ends_read Lexer.interpolation _).of_ok hread
      rw [htoken.location, hstart]
      show (Lexer.ofCursor d options).skipTrivia.cursor.location = _
      rw [Lexer.skipTrivia_eq htrivia]
      rfl
  obtain ⟨m, hm⟩ : ∃ m, m = Lexer.ofText e.text first.location.line first.location.column options :=
    ⟨_, rfl⟩
  have hmirrors : (Lexer.ofCursor d options).Mirrors first.location.offset k.cursor.rest m := by
    rw [hm, hplace]
    refine ⟨⟨?_, ?_⟩, rfl, rfl, rfl, rfl⟩
    · show d.rest = e.text ++ k.cursor.rest
      rw [htext, ← hend]
      exact (hconsumes.before rfl).rest_eq
    · show d.location = Location.moved _ ⟨_, _, 0⟩
      rw [Location.moved, Nat.zero_add]
  rw [← hm]
  obtain ⟨ts, k', hts, hsame, hk⟩ :=
    hconsumes.mirrors hmirrors rfl (by rw [hm]; rfl) rfl hwhole hhead hraw
  have hnone : Lexer.next k' = .ok none k'.skipTrivia := by
    have hfresh : k'.lookahead = none := hts.fresh (by rw [hm]; rfl)
    have hrest : k'.cursor.rest = [] := List.self_eq_append_left.mp hk.cursor.rest
    have hskip : k'.skipTrivia = k' := by
      refine Lexer.skipTrivia_eq (Recognizer.trivia_eq_none_iff.mpr ?_)
      rw [hrest]
      exact Nat.eq_zero_of_le_zero (Text.triviaLength_le [])
    show Lexer.Rules.next Lexer.interpolation k' = _
    rw [Lexer.Rules.next_apply, hfresh, Lexer.Rules.read_apply, ← hk.pending, hpending, hskip]
    simp only [Cursor.atEnd, hrest]
    rfl
  exact ⟨ts, _, Lexer.all_of_consumes hts (by rw [hm]; rfl) hnone, hsame⟩

/-- An expression on the second line, with an interpolation and a special function. -/
theorem tokens_of_text_second :
    ∃ tree e first others ts l,
      (parse "$x: 1;\n$y: \"a#\x7bb\x7d\" calc(2);".toList).result = .ok tree ∧
      e ∈ tree.expressions ∧
      e.text = "\"a#\x7bb\x7d\" calc(2)".toList ∧ e.tokens = first :: others ∧
      Lexer.all (.ofText e.text first.location.line first.location.column {}) = .ok ts l ∧
      e.tokens = ts.map (·.moved first.location.offset) := by
  obtain ⟨tree, htree, hsome⟩ :
      ∃ tree, (parse "$x: 1;\n$y: \"a#\x7bb\x7d\" calc(2);".toList).result = .ok tree ∧
        tree.expressions.any fun e => e.text = "\"a#\x7bb\x7d\" calc(2)".toList ∧
          (e.tokens.all fun t => (t.pieces?.getD []).all Piece.isRaw) = true :=
    exists_of_parse (by decide +kernel)
  obtain ⟨e, he, htest⟩ := List.any_eq_true.mp hsome
  obtain ⟨htext, hall⟩ := of_decide_eq_true htest
  have hraw : ∀ t ∈ e.tokens, ∀ ps, t.kind = .special ps → ∀ p ∈ ps, p.isRaw = true := by
    intro t ht ps hkind
    have hpieces := List.all_eq_true.mp hall t ht
    rw [Token.pieces?, hkind] at hpieces
    exact List.all_eq_true.mp hpieces
  obtain ⟨first, others, htokens, ts, l, hlexer, hsame⟩ := tokens_of_text htree he hraw
  exact ⟨tree, e, first, others, ts, l, htree, he, htext, htokens, hlexer, hsame⟩

end Stylesheet
