import Stylesheet.Proofs.Excerpt
import Stylesheet.Proofs.Seam
import Stylesheet.Proofs.Termination
import Stylesheet.Proofs.Word

/-!
# Tokens in front of a seam

A lexer in a text reads the tokens it would read if the text went on (`Seam.read_behind`).  At the
end of the text, where there is nothing left, it then reads the mark (`Seam.read_mark`).  So a loop
over tokens that stops at such a mark takes the same tokens of both texts, or fails in both
(`Seam.collectUntil_behind`).

That holds of lexers that are in no string.  Such a lexer never comes to be in one: next to a
semicolon there are no quotes, and next to a closing brace no string is cut short.
-/
namespace Stylesheet

namespace Lexer

/-- The same lexer where the text goes on, with no token in view. -/
def prolong (l : Lexer) (u : Text) : Lexer :=
  { l with cursor := l.cursor.prolong u, previousEnd := l.previousEnd.prolong u }

end Lexer

/-- The same lookahead where the text goes on. -/
def Lookahead.prolong (a : Lookahead) (u : Text) : Lookahead :=
  { a with start := a.start.prolong u }

namespace Lexer

variable (l : Lexer) (u : Text)

@[simp] theorem pending_prolong : (l.prolong u).pending = l.pending := rfl

@[simp] theorem depth_prolong : (l.prolong u).depth = l.depth := rfl

theorem note_prolong (t : Token) : (l.prolong u).note t = (l.note t).prolong u := by
  unfold note prolong pop warn push
  dsimp only
  split
  · split <;> rfl
  · split <;> rfl
  · split <;> rfl
  · rfl

theorem consume_prolong (ahead : Lookahead) :
    (l.prolong u).consume (ahead.prolong u) = (l.consume ahead).prolong u := by
  have hnote : (l.prolong u).note (ahead.prolong u).token = (l.note ahead.token).prolong u :=
    note_prolong l u ahead.token
  unfold consume
  rw [hnote]
  show _ = prolong _ u
  cases hopens : ahead.opens with
  | none => simp only [Lookahead.prolong, hopens, prolong]
  | some q => simp only [Lookahead.prolong, hopens, prolong, push]

end Lexer

namespace Seam

open Lexer

variable {S : Seam} {n : Nat} {l m : Lexer}

variable (S) in
/-- A lexer in the text, with no token in view and in no string.  Next to a closing brace it is in
no interpolation either. -/
structure Quiet (n : Nat) (l : Lexer) : Prop extends S.Inside n l.cursor where
  fresh : l.lookahead = none
  whole : l.openSegment = false
  resume : l.resume = none
  plain : ∀ q ∈ l.interpolations, q = none
  shallow : S.mark = '\x7d' → l.interpolations = []

theorem quiet_ofCursor {c : Cursor} (h : S.Inside n c) (options : Options) :
    S.Quiet n (.ofCursor c options) where
  toInside := h
  fresh := rfl
  whole := rfl
  resume := rfl
  plain := by simp [ofCursor]
  shallow _ := rfl

/-- The same lexer further on. -/
theorem Quiet.advance (h : S.Quiet n l) {c : Cursor} (hc : l.cursor.Before c)
    (wording : Option String) : S.Quiet n { l with cursor := c, expected := wording } := by
  obtain ⟨k, rfl⟩ := hc
  exact { h with toInside := (h.toInside.advance k).mono (Nat.sub_le _ _) }

theorem Quiet.pending (h : S.Quiet n l) : l.pending = none := by
  rw [Lexer.pending, h.resume]
  split <;> rfl

/-- A text next to a closing brace holds no interpolations. -/
theorem not_opening (hmark : S.mark = '\x7d') : ¬ ['#', '\x7b'] <:+: S.text := by
  rcases S.closed with ⟨h, -⟩ | ⟨-, -, h⟩
  · rw [hmark] at h
    exact absurd h (by decide)
  · exact h

/-- A text next to a semicolon holds no parentheses. -/
theorem mark_of_paren (h : '(' ∈ S.text) : S.mark = '\x7d' ∧ S.more = [] := by
  rcases S.closed with ⟨-, -, -, hparen, -⟩ | ⟨hmark, hmore, -⟩
  · exact absurd h hparen
  · exact ⟨hmark, hmore⟩

/-- No string is cut short. -/
theorem opens_of_at? {inside : Bool} {t : Text} {x : Lexeme} (ht : t <:+ S.text)
    (h : Lexeme.at? inside t = some x) : x.opens = none := by
  cases Lexeme.found_of_at? h with
  | op _ plain _ _ => exact plain.2
  | legacy _ plain _ _ => exact plain.2
  | inert plain _ => exact plain.2
  | string v q kind _ opens =>
    refine opens.resolve_right ?_
    rintro ⟨-, u, hrest⟩
    have hstring := Lexeme.string?_of_at? h kind
    rcases S.closed with ⟨-, hdouble, hsingle, -, -⟩ | ⟨-, -, hopening⟩
    · obtain ⟨c, v, rfl, hc⟩ : ∃ c v, t = c :: v ∧ c = q.char := by
        cases t with
        | nil => cases hstring
        | cons c v =>
          rw [Lexeme.string?] at hstring
          split at hstring
          · next hc => exact ⟨c, v, rfl, hc⟩
          · cases hstring
      have hmem : q.char ∈ S.text := ht.subset (hc ▸ List.mem_cons_self)
      cases q with
      | double => exact hdouble hmem
      | single => exact hsingle hmem
    · refine hopening (List.IsInfix.trans ?_ ((List.drop_suffix x.length t).trans ht).isInfix)
      rw [hrest]
      exact (List.prefix_append ['#', '\x7b'] u).isInfix

/-- A token consumed leaves a lexer in no string. -/
theorem Quiet.consume (h : S.Quiet n l) {ahead : Lookahead} (hopens : ahead.opens = none)
    (hopening : ahead.token.kind = .op .openInterpolation → S.mark ≠ '\x7d') :
    S.Quiet n (l.consume ahead) := by
  have hnote : S.Quiet n (l.note ahead.token) := by
    have hclear : S.Quiet n { l with resume := none } := { h with resume := rfl }
    unfold Lexer.note
    dsimp only
    split
    · next hkind =>
      rw [if_neg (by rw [h.whole]; exact Bool.false_ne_true)]
      exact { hclear with
        plain := by
          intro q hq
          rcases List.mem_cons.mp hq with rfl | hq
          · rfl
          · exact h.plain q hq
        shallow := fun hmark => absurd hmark (hopening hkind) }
    · unfold Lexer.pop
      dsimp only
      split
      · exact hclear
      · next around outer hstack =>
        refine { hclear with resume := ?_, plain := ?_, shallow := ?_ }
        · exact h.plain around (by rw [hstack]; exact List.mem_cons_self)
        · exact fun q hq => h.plain q (by rw [hstack]; exact List.mem_cons_of_mem _ hq)
        · intro hmark
          rw [h.shallow hmark] at hstack
          cases hstack
    · unfold Lexer.warn
      dsimp only
      split
      · exact hclear
      · exact { hclear with }
    · exact hclear
  rw [consume_eq hopens]
  exact { hnote with fresh := rfl }

/-! ### Special functions -/

theorem paren_of_specialHead {t : Text} {head : Nat} (h : Recognizer.specialHead t = some head) :
    '(' ∈ t := by
  obtain ⟨k, -, m, hm, -⟩ := Recognizer.andThen_eq_some.mp h
  have hhead := Recognizer.specialHead.head?_of_literal hm
  exact List.mem_of_mem_drop (List.mem_of_head? hhead)

/-- A special function without interpolations is text throughout. -/
theorem pieces_plain {stop : Cursor} (hparen : stop.past.head? = some ')')
    (hbefore : l.cursor.Before stop) (hfresh : l.lookahead = none)
    (hopening : ¬ ['#', '\x7b'] <:+: l.cursor.rest) :
    ∃ parts k, Rules.pieces interpolation stop l = .ok parts k ∧ (∀ p ∈ parts, p.isRaw = true) ∧
      k.warnings = l.warnings := by
  induction hleft : l.cursor.left using Nat.strongRecOn generalizing l with
  | ind left ih =>
    by_cases hend : stop.offset ≤ l.cursor.offset
    · exact ⟨[], l, pieces_done hend, by simp, rfl⟩
    · have hne : l.cursor ≠ stop := fun heq => hend (Nat.le_of_eq (by rw [heq]))
      obtain ⟨j, hj⟩ : ∃ j, Rules.rawLength? l.cursor.rest = some j := by
        cases hj : Rules.rawLength? l.cursor.rest with
        | some j => exact ⟨j, rfl⟩
        | none =>
          obtain ⟨u, hu⟩ := Rules.rawLength?_eq_none hj
          exact absurd (hu ▸ (List.prefix_append ['#', '\x7b'] u).isInfix) hopening
      obtain ⟨hpos, hle, hgoes⟩ := before_raw hbefore hne hparen hj
      have hlpos : 0 < l.cursor.left := by
        rw [l.cursor.left_eq]
        omega
      have hlt : l.cursor.left - j < left := by omega
      obtain ⟨parts, k, hrun, hraw, hwarnings⟩ :=
        ih _ hlt (l := { l with cursor := l.cursor.advance j }) hgoes hfresh
          (fun hmore => hopening (hmore.trans (List.drop_suffix j _).isInfix)) rfl
      refine ⟨.raw (l.cursor.rest.take j) :: parts, k, ?_, ?_, hwarnings⟩
      · rw [pieces_raw hend hj hfresh hpos hlpos, hrun]
      · intro p hp
        rcases List.mem_cons.mp hp with rfl | hp
        · rfl
        · exact hraw p hp

/-- What follows the text next to a closing brace opens no interpolation either. -/
theorem not_opening_behind (hmark : S.mark = '\x7d') (hmore : S.more = []) {t : Text}
    (ht : t <:+ S.text) : ¬ ['#', '\x7b'] <:+: t ++ S.behind := by
  rw [behind, hmark, hmore, show t ++ ['\n', '\x7d'] = (t ++ ['\n']) ++ ['\x7d'] by simp]
  intro hopens
  rcases List.infix_concat_iff.mp hopens with hend | hopens
  · have hlast := hend.getLast (by simp)
    simp at hlast
  · rcases List.infix_concat_iff.mp hopens with hend | hopens
    · have hlast := hend.getLast (by simp)
      simp at hlast
    · exact not_opening hmark (hopens.trans ht.isInfix)

theorem balancedLength_behind (hmark : S.mark = '\x7d') (hmore : S.more = []) (t : Text) :
    Text.balancedLength? (t ++ S.behind) = Text.balancedLength? t := by
  rw [behind, hmark, hmore]
  exact Text.closingParen?_brace 0 0 t

/-- The body of a special function is the same if the text goes on. -/
theorem pieces_behind (hmark : S.mark = '\x7d') (hmore : S.more = []) {c : Cursor}
    (hc : c.rest <:+ S.text) {body : Nat} (hbody : c.rest.balancedLength? = some body)
    (options : Options) :
    ∃ parts k k', Rules.pieces interpolation (c.advance body) (.ofCursor c options) = .ok parts k ∧
      Rules.pieces interpolation ((c.advance body).prolong S.behind)
        (.ofCursor (c.prolong S.behind) options) = .ok parts k' ∧
      k.warnings = [] ∧ k'.warnings = [] := by
  have hle : body ≤ c.rest.length := (Text.closingParen?_take [] hbody).2.1
  have hparen : (c.advance body).past.head? = some ')' := by
    obtain ⟨w, z, hw, rfl⟩ := Text.closingParen?_eq_some hbody
    exact Cursor.past_advance_head? hw
  have hbefore : (c.prolong S.behind).Before ((c.advance body).prolong S.behind) :=
    ⟨body, (Cursor.advance_prolong hle _).symm⟩
  have hparen' : ((c.advance body).prolong S.behind).past.head? = some ')' := hparen
  obtain ⟨parts, k', hlong, hraw, hwarnings'⟩ :=
    pieces_plain (l := .ofCursor (c.prolong S.behind) options) hparen' hbefore rfl
      (not_opening_behind hmark hmore hc)
  have hstop : Cursor.Mirrors 0 S.behind ((c.advance body).prolong S.behind) (c.advance body) :=
    ⟨rfl, rfl⟩
  have hstart : Cursor.Mirrors 0 S.behind (Lexer.ofCursor (c.prolong S.behind) options).cursor
      (Lexer.ofCursor c options).cursor := ⟨rfl, rfl⟩
  obtain ⟨k, hshort⟩ := pieces_mirrors hstop hparen hstart hbefore rfl rfl hlong hraw
  obtain ⟨_, _, hplain, -, hwarnings⟩ :=
    pieces_plain (l := .ofCursor c options) hparen (Cursor.before_advance body c) rfl
      (fun hopens => not_opening hmark (hopens.trans hc.isInfix))
  cases hshort.symm.trans hplain
  exact ⟨parts, k, k', hshort, hlong, hwarnings, hwarnings'⟩

/-! ### The next token -/

/-- The mark is a token.  Inside an interpolation a closing brace is another one. -/
theorem at?_mark {inside : Bool} (hinside : S.mark = '\x7d' → inside = false) :
    ∃ o : Op, (o = .semicolon ∨ o = .closeBrace) ∧
      Lexeme.at? inside (S.mark :: S.more) = some { kind := .op o, length := 1 } := by
  rcases S.mark_cases with hmark | hmark
  · rw [hmark]
    exact ⟨.semicolon, .inl rfl, rfl⟩
  · rw [hinside hmark, hmark]
    exact ⟨.closeBrace, .inr rfl, rfl⟩

section
variable (hpending : l.pending = none) (hend : l.skipTrivia.cursor.atEnd = false)
  (hnone : Lexeme.at? (0 < l.depth) l.skipTrivia.cursor.rest = none)
include hpending hend hnone

theorem read_of_none (hhead : Recognizer.specialHead l.skipTrivia.cursor.rest = none) :
    ∃ e m, Rules.read interpolation l = .error e m := by
  rw [Rules.read_apply, hpending]
  simp only [hend, Bool.false_eq_true, if_false, Rules.token_apply, (moved_skipTrivia l).depth,
    hnone, hhead]
  exact ⟨_, _, rfl⟩

theorem read_of_open {head : Nat}
    (hhead : Recognizer.specialHead l.skipTrivia.cursor.rest = some head)
    (hbody : (l.skipTrivia.cursor.advance head).rest.balancedLength? = none) :
    ∃ e m, Rules.read interpolation l = .error e m := by
  rw [Rules.read_apply, hpending]
  simp only [hend, Bool.false_eq_true, if_false, Rules.token_apply, (moved_skipTrivia l).depth,
    hnone, hhead, Rules.special_apply, hbody]
  exact ⟨_, _, rfl⟩

end

section
variable (hl : S.Quiet n l)
include hl

/-- Where white space and comments end within the text, they end there whatever follows. -/
theorem Quiet.skip_prolong (hend : l.skipTrivia.cursor.atEnd = false) :
    (l.prolong S.behind).skipTrivia.cursor = l.skipTrivia.cursor.prolong S.behind := by
  have hsettled := (Place.level ⟨hl.toInside, rfl⟩ :
    S.Place n l.cursor (l.cursor.prolong S.behind)).skip_trivia
  refine (hsettled.place.level_of_ne fun hnil => ?_).same
  rw [Cursor.atEnd, show l.skipTrivia.cursor.rest = [] from hnil] at hend
  cases hend

theorem Quiet.atEnd_prolong (hend : l.skipTrivia.cursor.atEnd = false) :
    (l.prolong S.behind).skipTrivia.cursor.atEnd = false := by
  rw [Cursor.atEnd, hl.skip_prolong hend, Cursor.rest_prolong, behind]
  cases l.skipTrivia.cursor.rest <;> rfl

/-- **A token of the text is read whatever follows.**  Where none can be read, it cannot be read in
both texts. -/
theorem read_behind (hend : l.skipTrivia.cursor.atEnd = false) :
    (∃ ahead m, Rules.read interpolation l = .ok (some ahead) m ∧
      Rules.read interpolation (l.prolong S.behind) =
        .ok (some (ahead.prolong S.behind)) (m.prolong S.behind) ∧
      S.Quiet n (m.consume ahead)) ∨
    ∃ e m e' m', Rules.read interpolation l = .error e m ∧
      Rules.read interpolation (l.prolong S.behind) = .error e' m' := by
  have hpending := hl.pending
  have hskip := hl.skip_prolong hend
  have hbefore : l.cursor.Before l.skipTrivia.cursor := (Cursor.Before.refl _).skip _
  have hsuffix : l.skipTrivia.cursor.rest <:+ S.text := (hl.advance hbefore none).suffix
  have hrest : (l.prolong S.behind).skipTrivia.cursor.rest =
      l.skipTrivia.cursor.rest ++ S.behind := by
    rw [hskip, Cursor.rest_prolong]
  have hend' := hl.atEnd_prolong hend
  cases hfound : Lexeme.at? (0 < l.depth) l.skipTrivia.cursor.rest with
  | some x =>
    have hfound' :
        Lexeme.at? (0 < (l.prolong S.behind).depth) (l.prolong S.behind).skipTrivia.cursor.rest =
        some x := by
      rw [hrest, at?_behind hsuffix]
      exact hfound
    refine .inl ⟨_, _, Rules.read_lexeme interpolation hpending hend hfound, ?_, ?_⟩
    · have hstop := Cursor.advance_prolong (Lexeme.length_le_of_at? hfound) S.behind
      rw [Rules.read_lexeme interpolation (l := l.prolong S.behind) hpending hend' hfound',
        hskip, hstop]
      rfl
    · refine (hl.advance (hbefore.advance _) none).consume (opens_of_at? hsuffix hfound)
        fun hkind hmark => ?_
      obtain ⟨u, hu⟩ := (Lexeme.found_of_at? hfound).text_of_op hkind
      exact not_opening hmark (List.IsInfix.trans ⟨[], u, hu⟩ hsuffix.isInfix)
  | none =>
    have hfound' :
        Lexeme.at? (0 < (l.prolong S.behind).depth) (l.prolong S.behind).skipTrivia.cursor.rest =
        none := by
      rw [hrest, at?_behind hsuffix]
      exact hfound
    have hhead' : Recognizer.specialHead (l.prolong S.behind).skipTrivia.cursor.rest =
        Recognizer.specialHead l.skipTrivia.cursor.rest := by
      rw [hrest, behind, Recognizer.newline_specialHead]
    cases hhead : Recognizer.specialHead l.skipTrivia.cursor.rest with
    | none =>
      obtain ⟨e, m, hread⟩ := read_of_none hpending hend hfound hhead
      obtain ⟨e', m', hread'⟩ :=
        read_of_none (l := l.prolong S.behind) hpending hend' hfound' (hhead'.trans hhead)
      exact .inr ⟨e, m, e', m', hread, hread'⟩
    | some head =>
      have hle := Recognizer.stable_specialHead.bounded hhead
      have hbody : (l.skipTrivia.cursor.advance head).rest <:+ S.text :=
        (List.drop_suffix head _).trans hsuffix
      have hstart : (l.prolong S.behind).skipTrivia.cursor.advance head =
          (l.skipTrivia.cursor.advance head).prolong S.behind := by
        rw [hskip, Cursor.advance_prolong hle]
      obtain ⟨hmark, hmore⟩ := mark_of_paren (hsuffix.subset (paren_of_specialHead hhead))
      have hbalanced : ((l.prolong S.behind).skipTrivia.cursor.advance head).rest.balancedLength? =
          (l.skipTrivia.cursor.advance head).rest.balancedLength? := by
        rw [hstart]
        exact balancedLength_behind hmark hmore _
      cases hlength : (l.skipTrivia.cursor.advance head).rest.balancedLength? with
      | none =>
        obtain ⟨e, m, hread⟩ := read_of_open hpending hend hfound hhead hlength
        obtain ⟨e', m', hread'⟩ := read_of_open (l := l.prolong S.behind) hpending hend' hfound'
          (hhead'.trans hhead) (hbalanced.trans hlength)
        exact .inr ⟨e, m, e', m', hread, hread'⟩
      | some body =>
        have hwithin : body ≤ (l.skipTrivia.cursor.advance head).rest.length :=
          (Text.closingParen?_take [] hlength).2.1
        have hstop : ((l.prolong S.behind).skipTrivia.cursor.advance head).advance body =
            ((l.skipTrivia.cursor.advance head).advance body).prolong S.behind := by
          rw [hstart, Cursor.advance_prolong hwithin]
        have htake : (l.prolong S.behind).skipTrivia.cursor.rest.take head =
            l.skipTrivia.cursor.rest.take head := by
          rw [hrest, List.take_append_of_le_length hle]
        obtain ⟨parts, k, k', hshort, hlong, hwarnings, hwarnings'⟩ :=
          pieces_behind hmark hmore hbody hlength l.options
        have hread := read_special hpending hend hfound hhead hlength hshort
        have hpieces : Rules.pieces interpolation
            (((l.prolong S.behind).skipTrivia.cursor.advance head).advance body)
            (.ofCursor ((l.prolong S.behind).skipTrivia.cursor.advance head) l.options) =
              .ok parts k' := by
          rw [hstop, hstart]
          exact hlong
        have hread' :=
          read_special (l := l.prolong S.behind) hpending hend' hfound' (hhead'.trans hhead)
          (hbalanced.trans hlength) hpieces
        refine .inl ⟨_, _, hread, ?_, ?_⟩
        · rw [hread', hstop, htake, hwarnings', hwarnings, hskip]
          rfl
        · refine (hl.advance ((hbefore.advance head).advance body) none).consume rfl fun hkind => ?_
          cases hkind

/-- **At the end of the text the mark is read.** -/
theorem read_mark (hend : l.skipTrivia.cursor.rest = []) :
    (l.prolong S.behind).skipTrivia.cursor.atEnd = false ∧
      ∃ ahead m, Rules.read interpolation (l.prolong S.behind) = .ok (some ahead) m ∧
        (ahead.token.kind = .op .semicolon ∨ ahead.token.kind = .op .closeBrace) ∧
        ahead.start = (l.skipTrivia.cursor.prolong S.behind).advance 1 ∧ m.warnings = l.warnings ∧
        m.previousEnd = l.previousEnd.prolong S.behind := by
  have hsettled := (Place.level ⟨hl.toInside, rfl⟩ :
    S.Place n l.cursor (l.cursor.prolong S.behind)).skip_trivia
  have hrest : (l.prolong S.behind).skipTrivia.cursor.rest = S.mark :: S.more := hsettled.stop hend
  have hskip :
      (l.prolong S.behind).skipTrivia.cursor = (l.skipTrivia.cursor.prolong S.behind).advance 1 :=
    hsettled.past hend
  have hend' : (l.prolong S.behind).skipTrivia.cursor.atEnd = false := by
    rw [Cursor.atEnd, hrest]
    rfl
  have hinside : S.mark = '\x7d' → decide (0 < (l.prolong S.behind).depth) = false := fun hmark =>
    decide_eq_false (Nat.not_lt_of_le (Nat.le_of_eq (congrArg List.length (hl.shallow hmark))))
  obtain ⟨o, ho, hfound⟩ := at?_mark hinside
  rw [← hrest] at hfound
  refine ⟨hend', _, _,
    Rules.read_lexeme interpolation (l := l.prolong S.behind) hl.pending hend' hfound,
    ho.imp (congrArg _) (congrArg _), hskip, rfl, rfl⟩

end

/-! ### Rounds of a loop -/

section
variable {β : Type} {go : β → Token → Option β} {b b' : β} {ahead : Lookahead} {e : SyntaxError}
  (hfresh : l.lookahead = none) (hpending : l.pending = none)
include hfresh hpending

theorem round_of_end (hend : l.skipTrivia.cursor.atEnd = true) :
    Rules.round interpolation go b l = .ok ([], none) l.skipTrivia := by
  have hdone : isDone l = .ok true l.skipTrivia := by
    rw [isDone_apply, hfresh, hpending, hend]
    rfl
  unfold Rules.round
  rw [bind_apply, hdone]
  rfl

variable (hend : l.skipTrivia.cursor.atEnd = false)
include hend

theorem isDone_of_more : isDone l = .ok false l.skipTrivia := by
  rw [isDone_apply, hfresh, hpending, hend]
  rfl

theorem round_of_error (hread : Rules.read interpolation l = .error e m) :
    Rules.round interpolation go b l = .error e m := by
  rw [← read_atToken, atToken_of_pending_none hpending] at hread
  unfold Rules.round
  rw [bind_apply, isDone_of_more hfresh hpending hend]
  simp only [Bool.false_eq_true, if_false, bind_apply, Rules.peek_apply,
    show l.skipTrivia.lookahead = none from hfresh, hread]

variable (hread : Rules.read interpolation l = .ok (some ahead) m)
include hread

theorem round_of_stop (hgo : go b ahead.token = none) :
    Rules.round interpolation go b l = .ok ([], none) { m with lookahead := some ahead } := by
  rw [← read_atToken, atToken_of_pending_none hpending] at hread
  unfold Rules.round
  rw [bind_apply, isDone_of_more hfresh hpending hend]
  simp only [Bool.false_eq_true, if_false, bind_apply, Rules.peek_apply,
    show l.skipTrivia.lookahead = none from hfresh, hread, Option.map_some, hgo]
  rfl

theorem round_of_goesOn (hgo : go b ahead.token = some b') :
    Rules.round interpolation go b l = .ok ([ahead.token], some b') (m.consume ahead) := by
  rw [← read_atToken, atToken_of_pending_none hpending] at hread
  unfold Rules.round
  rw [bind_apply, isDone_of_more hfresh hpending hend]
  simp only [Bool.false_eq_true, if_false, bind_apply, Rules.peek_apply,
    show l.skipTrivia.lookahead = none from hfresh, hread, Option.map_some, hgo, Rules.next_apply,
    consume_view]
  rfl

end

/-! ### Loops over tokens -/

variable (S) in
/-- What a loop over tokens comes to in the text and in the whole: the same tokens up to places that
belong to each other, or an error. -/
inductive Collected (n : Nat) :
    EStateM.Result SyntaxError Lexer (List Token) →
    EStateM.Result SyntaxError Lexer (List Token) → Prop
  | ok (ts : List Token) {m m' : Lexer} (place : S.Place n m.front m'.front)
      (warnings : m'.warnings = m.warnings)
      (previousEnd : m'.previousEnd = m.previousEnd.prolong S.behind) :
      Collected n (.ok ts m) (.ok ts m')
  | error (e e' : SyntaxError) (m m' : Lexer) : Collected n (.error e m) (.error e' m')

theorem Collected.found {ts : List Token} {r r' : EStateM.Result SyntaxError Lexer (List Token)}
    (h : S.Collected n r r') : S.Collected n (foundBefore ts r) (foundBefore ts r') := by
  cases h with
  | ok us place warnings previousEnd => exact .ok (ts ++ us) place warnings previousEnd
  | error e e' m m' => exact .error e e' m m'

/-- A loop over tokens that ends at the mark, or that has ended before it. -/
def EndsBefore {β : Type} (go : β → Token → Option β)
    (r : EStateM.Result SyntaxError Lexer (List Token)) : Prop :=
  (∀ (b : β) (t : Token), t.kind = .op .semicolon ∨ t.kind = .op .closeBrace → go b t = none) ∨
    ∃ ts m, r = .ok ts m ∧ m.front.rest ≠ []

theorem EndsBefore.of_found {β : Type} {go : β → Token → Option β} {ts : List Token}
    {r : EStateM.Result SyntaxError Lexer (List Token)} (h : EndsBefore go (foundBefore ts r)) :
    EndsBefore go r := by
  refine h.imp id ?_
  rintro ⟨us, m, hr, hne⟩
  cases r with
  | ok vs k =>
    cases hr
    exact ⟨_, _, rfl, hne⟩
  | error e k => cases hr

/-- A token in view starts at a place in the text. -/
theorem Quiet.start (hl : S.Quiet n l) {ahead : Lookahead}
    (h : Rules.read interpolation l = .ok (some ahead) m) :
    S.Place n ahead.start (ahead.prolong S.behind).start := by
  obtain ⟨-, hstart, -⟩ := (Rules.ends_read interpolation l).of_ok h
  rw [tokenStart_of_pending_none hl.pending] at hstart
  have hquiet := hl.advance ((Cursor.Before.refl _).skip Recognizer.trivia) none
  exact .level ⟨hstart ▸ hquiet.toInside, rfl⟩

theorem loop_behind {β : Type} {go : β → Token → Option β} {b : β}
    {r : EStateM.Result SyntaxError Lexer (List Token)} (hl : S.Quiet n l)
    (h : Loop (Rules.round interpolation go) b l r) (hgo : EndsBefore go r) :
    ∃ r', Loop (Rules.round interpolation go) b (l.prolong S.behind) r' ∧ S.Collected n r r' := by
  induction h with
  | @stops b l k found round =>
    cases hend : l.skipTrivia.cursor.atEnd with
    | true =>
      cases (round_of_end hl.fresh hl.pending hend).symm.trans round
      have hnil : l.skipTrivia.cursor.rest = [] := List.isEmpty_iff.mp hend
      have hfront : l.skipTrivia.front = l.skipTrivia.cursor := front_of_lookahead hl.fresh
      obtain ⟨hend', ahead, m, hread, hmark, hstart, hwarnings, hprevious⟩ := read_mark hl hnil
      have hstop : go b ahead.token = none := by
        rcases hgo with hgo | ⟨ts, m, hr, hne⟩
        · exact hgo b _ hmark
        · cases hr
          rw [hfront] at hne
          exact absurd hnil hne
      refine ⟨_,
        .stops (round_of_stop (l := l.prolong S.behind) hl.fresh hl.pending hend' hread hstop),
        .ok [] ?_ hwarnings hprevious⟩
      rw [hfront, show Lexer.front { m with lookahead := some ahead } = _ from hstart]
      exact .past hnil
    | false =>
      rcases read_behind hl hend with ⟨ahead, m, hread, hread', -⟩ | ⟨e, m, e', m', hread, -⟩
      · cases hstop : go b ahead.token with
        | some b' => cases (round_of_goesOn hl.fresh hl.pending hend hread hstop).symm.trans round
        | none =>
          cases (round_of_stop hl.fresh hl.pending hend hread hstop).symm.trans round
          exact ⟨_, .stops (round_of_stop (l := l.prolong S.behind) hl.fresh hl.pending
            (hl.atEnd_prolong hend) hread' hstop), .ok [] (hl.start hread) rfl rfl⟩
      · cases (round_of_error hl.fresh hl.pending hend hread).symm.trans round
  | @fails b l k e round =>
    cases hend : l.skipTrivia.cursor.atEnd with
    | true => cases (round_of_end hl.fresh hl.pending hend).symm.trans round
    | false =>
      rcases read_behind hl hend with ⟨ahead, m, hread, -, -⟩ | ⟨e, m, e', m', -, hread'⟩
      · cases hstop : go b ahead.token with
        | some b' => cases (round_of_goesOn hl.fresh hl.pending hend hread hstop).symm.trans round
        | none => cases (round_of_stop hl.fresh hl.pending hend hread hstop).symm.trans round
      · exact ⟨_, .fails (round_of_error (l := l.prolong S.behind) hl.fresh hl.pending
          (hl.atEnd_prolong hend) hread'), .error _ _ _ _⟩
  | @goesOn b b' l k found r round others ih =>
    cases hend : l.skipTrivia.cursor.atEnd with
    | true => cases (round_of_end hl.fresh hl.pending hend).symm.trans round
    | false =>
      rcases read_behind hl hend with ⟨ahead, m, hread, hread', hquiet⟩ | ⟨e, m, e', m', hread, -⟩
      · cases hstop : go b ahead.token with
        | none => cases (round_of_stop hl.fresh hl.pending hend hread hstop).symm.trans round
        | some b' =>
          cases (round_of_goesOn hl.fresh hl.pending hend hread hstop).symm.trans round
          obtain ⟨r', hothers, hcollected⟩ := ih hquiet hgo.of_found
          rw [← consume_prolong] at hothers
          exact ⟨_, .goesOn (round_of_goesOn (l := l.prolong S.behind) hl.fresh hl.pending
            (hl.atEnd_prolong hend) hread' hstop) hothers, hcollected.found⟩
      · cases (round_of_error hl.fresh hl.pending hend hread).symm.trans round

/-- **A loop over tokens that ends at the mark takes the same tokens of both texts.** -/
theorem collectUntil_behind (hl : S.Quiet n l) {β : Type} {go : β → Token → Option β} {b : β}
    (hgo : EndsBefore go (collectUntil go b l)) :
    S.Collected n (collectUntil go b l) (collectUntil go b (l.prolong S.behind)) := by
  have hloop : Loop (Rules.round interpolation go) b l _ := (loop_round_iff hl.fresh).mpr rfl
  unfold collectUntil at hgo ⊢
  rw [Rules.collectUntil_eq] at hgo ⊢
  simp only [bind_apply, modify_apply, pure_apply] at hgo ⊢
  generalize unfold size (Rules.round interpolation go) b l = r at hloop hgo ⊢
  have hgo' : EndsBefore go r := by
    refine hgo.imp id ?_
    rintro ⟨ts, m, hr, hne⟩
    cases r with
    | ok us k =>
      cases hr
      exact ⟨_, _, rfl, hne⟩
    | error e k => cases hr
  obtain ⟨r', hloop', hcollected⟩ := loop_behind hl hloop hgo'
  rw [(loop_round_iff (l := l.prolong S.behind) hl.fresh).mp hloop']
  cases hcollected with
  | ok ts place warnings previousEnd => exact .ok ts place warnings previousEnd
  | error e e' m m' => exact .error e e' m m'

/-! ### Loops over tokens where there are none -/

theorem collectUntil_of_round {β : Type} {go : β → Token → Option β} {b : β}
    (h : Rules.round interpolation go b l = .ok ([], none) m) :
    collectUntil go b l = .ok [] m.unconsume := by
  unfold collectUntil
  rw [Rules.collectUntil_eq, bind_apply, unfold_apply, h]
  rfl

variable {c : Cursor} (options : Options)

/-- At the end of a text there are no tokens. -/
theorem collectUntil_of_end (h : c.rest = []) {β : Type} (go : β → Token → Option β) (b : β) :
    ∃ m, collectUntil go b (.ofCursor c options) = .ok [] m ∧ m.front = c ∧ m.warnings = [] := by
  have hskip : (Lexer.ofCursor c options).skipTrivia = .ofCursor c options := by
    unfold Lexer.skipTrivia
    rw [Cursor.skip_trivia_of_end (show (Lexer.ofCursor c options).cursor.rest = [] from h)]
  have hend : (Lexer.ofCursor c options).skipTrivia.cursor.atEnd = true := by
    rw [hskip]
    exact List.isEmpty_iff.mpr h
  exact ⟨_, collectUntil_of_round (round_of_end rfl rfl hend), congrArg Lexer.cursor hskip,
    congrArg Lexer.warnings hskip⟩

/-- A loop that ends at the mark takes nothing there. -/
theorem collectUntil_of_mark (h : c.rest = S.mark :: S.more) {β : Type}
    {go : β → Token → Option β} (b : β)
    (hgo : ∀ (b : β) (t : Token),
      t.kind = .op .semicolon ∨ t.kind = .op .closeBrace → go b t = none) :
    ∃ m, collectUntil go b (.ofCursor c options) = .ok [] m ∧ m.front = c ∧ m.warnings = [] := by
  have htrivia : Recognizer.trivia (S.mark :: S.more) = none :=
    Recognizer.trivia_eq_none_iff.mpr (Text.triviaLength_of_none trivium_mark)
  obtain ⟨o, ho, hfound⟩ := at?_mark fun (_ : S.mark = '\x7d') => rfl
  obtain ⟨m, hm, hfront, -, hwarnings⟩ :=
    collectUntil_of_sign (l := .ofCursor c options) rfl rfl h htrivia hfound
    fun t ht => hgo b t (ht ▸ ho.imp (congrArg _) (congrArg _))
  exact ⟨m, hm, hfront, hwarnings⟩

/-- **An interpolation that is closed in the text is the same whatever follows.** -/
theorem interpolation_behind (hl : S.Quiet n l) {ts : List Token}
    (h : Lexer.interpolation l = .ok ts m) :
    ∃ m', Lexer.interpolation (l.prolong S.behind) = .ok ts m' ∧ S.Level n m.front m'.front ∧
      m'.warnings = m.warnings := by
  obtain ⟨k, u, hcollect, hne, hrest, rfl⟩ := interpolation_eq_ok.mp h
  have hfresh := fresh_of_collectUntil hcollect
  have hfront : k.front = k.cursor := front_of_lookahead hfresh
  have hinside : k.front.rest ≠ [] := by
    rw [hfront, hrest]
    exact List.cons_ne_nil _ _
  have hbehind := collectUntil_behind hl (.inr ⟨ts, k, hcollect, hinside⟩)
  rw [hcollect] at hbehind
  generalize hlong : collectUntil insideBraces () (l.prolong S.behind) = r' at hbehind
  cases hbehind with
  | @ok _ _ k' place warnings previousEnd =>
    have hfresh' := fresh_of_collectUntil hlong
    have hlevel := place.level_of_ne hinside
    rw [hfront, front_of_lookahead hfresh'] at hlevel
    have hrest' : k'.cursor.rest = '}' :: (u ++ S.behind) := by
      rw [hlevel.rest, hrest]
      rfl
    refine ⟨_, interpolation_eq_ok.mpr ⟨k', _, hlong, hne, hrest', rfl⟩, ?_, warnings⟩
    rw [front_of_lookahead (by exact hfresh), front_of_lookahead (by exact hfresh')]
    exact (hlevel.advance (by rw [hrest]; exact Nat.succ_pos _)).mono (Nat.sub_le _ _)

end Seam
end Stylesheet
