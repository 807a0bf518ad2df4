import Mathlib.Data.List.Induction
import Stylesheet.Proofs.Matching

/-!
# Sessions with a lexer

A lexer is asked for tokens, looked at, told to put a token back and asked whether it is done, in
any order and as often as one likes, also after a call that failed.  A session records what was
consumed (`Session.run`).  What the lexer remembers of the open interpolations, spread over its
state, is what the consumed tokens say about them (`Kept`): consuming a token keeps that, and no
other call touches it.  So a closing brace, the brace of a stylesheet and a string that goes on are
told apart by the tokens before them alone (`Session.disciplined`).
-/
namespace Stylesheet

open Token (opened closed)
open Consumed (tokens cutBy ClosesBehind Around)

/-- An answer without the state it leaves. -/
def answer {ε σ α : Type} : EStateM.Result ε σ α → Except ε α
  | .ok a _ => .ok a
  | .error e _ => .error e

namespace Lexer

/-- The place right before the token that is consumed next. -/
def nextStart (l : Lexer) : Cursor :=
  match l.lookahead with
  | some ahead => ahead.start
  | none => l.tokenStart

/-- The token that is consumed next, if there is one and it can be read. -/
def offer (l : Lexer) : Except SyntaxError (Option Token) :=
  answer (next l)

end Lexer

/-- What can be asked of a lexer. -/
inductive Query
  | next
  | peek
  | unconsume
  | isDone
  deriving DecidableEq, Repr

/-- A lexer and the tokens that were consumed from it. -/
structure Session where
  lexer : Lexer
  consumed : List Consumed

namespace Session

/-- A lexer at a place, from which nothing was consumed. -/
def ofCursor (c : Cursor) (options : Options) : Session :=
  ⟨.ofCursor c options, []⟩

/-- The session behind one more call. -/
def ask (s : Session) : Query → Session
  | .next =>
    match Lexer.next s.lexer with
    | .ok (some t) l =>
      ⟨l, s.consumed ++ [⟨t, s.lexer.nextStart, l.previousEnd, s.lexer.pending.isSome⟩]⟩
    | .ok none l => ⟨l, s.consumed⟩
    | .error _ l => ⟨l, s.consumed⟩
  | .peek => { s with lexer := stateOf (Lexer.peek s.lexer) }
  | .unconsume => { s with lexer := s.lexer.unconsume }
  | .isDone => { s with lexer := stateOf (Lexer.isDone s.lexer) }

/-- The session behind some calls. -/
def run (s : Session) (queries : List Query) : Session :=
  queries.foldl ask s

end Session

namespace Lexer

/-! ### What a found token says of a string -/

theorem opens_of_segment? {q : Quote} {t : Text} {x : Lexeme} (h : Lexeme.segment? q t = some x) :
    x.opens = match segmentEnd? q t with
      | some (_, .interpolated) => some q
      | _ => none := by
  unfold Lexeme.segment? at h
  split at h
  · next hend =>
    cases h
    rw [hend]
  · next hend =>
    cases h
    rw [hend]
  · cases h

variable {interpolation : LexM (List Token)} {l : Lexer} {ahead : Lookahead} {d : Cursor}

/-- A token in view, as it is recorded when it is consumed. -/
def record (l : Lexer) (ahead : Lookahead) : Consumed :=
  ⟨ahead.token, ahead.start, l.cursor, l.pending.isSome⟩

/-- **A token leaves a string open if its text says so.** -/
theorem cut?_record (h : Rules.TokenAt interpolation l ahead d) :
    (l.record ahead).cut? = ahead.opens := by
  have hother : ∀ u : Consumed, (∀ v q, u.token.kind ≠ .string v q) → u.cut? = none := by
    intro u hu
    unfold Consumed.cut?
    split
    · next v q hkind => exact absurd hkind (hu v q)
    · rfl
  cases h with
  | segment c q x pending found =>
    obtain ⟨⟨v, hkind⟩, _⟩ := Lexeme.segment?_eq_some found
    have hstring : (l.record (x.ahead c)).token.kind = .string v q := hkind
    have hopens := opens_of_segment? found
    unfold Consumed.cut?
    rw [hstring]
    simp only [record, pending, Option.isSome_some, if_true]
    exact hopens.symm
  | lexeme c x pending found =>
    by_cases hkind : ∃ v q, x.kind = .string v q
    · obtain ⟨v, q, hkind⟩ := hkind
      have hstring : (l.record (x.ahead c)).token.kind = .string v q := hkind
      have hopening := Lexeme.string?_of_at? found hkind
      unfold Consumed.cut?
      rw [hstring]
      simp only [record, Lexeme.ahead, pending, Option.isSome_none, Bool.false_eq_true, if_false]
      cases hrest : c.rest with
      | nil =>
        rw [hrest] at hopening
        cases hopening
      | cons y t =>
        rw [hrest, Lexeme.string?] at hopening
        split at hopening
        · obtain ⟨z, hz, rfl⟩ := Option.map_eq_some_iff.mp hopening
          exact (opens_of_segment? hz).symm
        · cases hopening
    · rw [hother _ fun v q h => hkind ⟨v, q, h⟩]
      cases Lexeme.found_of_at? found with
      | string v q kind => exact absurd ⟨v, q, kind⟩ hkind
      | op _ plain => exact plain.2.symm
      | legacy _ plain => exact plain.2.symm
      | inert plain => exact plain.2.symm
  | special c head body parts inner =>
    refine hother _ fun v q hkind => ?_
    cases hkind

/-- A closing brace is the brace of an interpolation inside of one, and that of a stylesheet
elsewhere.  Where a string goes on it is neither. -/
theorem brace_of_tokenAt (h : Rules.TokenAt interpolation l ahead d) :
    (ahead.token.kind = .op .closeInterpolation ↔
      l.pending = none ∧ ahead.start.rest.head? = some '}' ∧ 0 < l.depth) ∧
    (ahead.token.kind = .op .closeBrace ↔
      l.pending = none ∧ ahead.start.rest.head? = some '}' ∧ ¬ 0 < l.depth) := by
  cases h with
  | segment c q x pending found =>
    obtain ⟨⟨v, hkind⟩, _⟩ := Lexeme.segment?_eq_some found
    rw [show (x.ahead c).token.kind = .string v q from hkind, pending]
    exact ⟨⟨nofun, nofun⟩, ⟨nofun, nofun⟩⟩
  | special c head body parts inner pending begins =>
    have hhead : c.rest.head? ≠ some '}' := by
      intro hbrace
      obtain ⟨t, ht⟩ := List.head?_eq_some_iff.mp hbrace
      have hnone : Recognizer.specialHead ('}' :: t) = none := rfl
      rw [ht, hnone] at begins
      cases begins
    exact ⟨⟨nofun, fun h => absurd h.2.1 hhead⟩, ⟨nofun, fun h => absurd h.2.1 hhead⟩⟩
  | lexeme c x pending found =>
    show (x.kind = _ ↔ _ ∧ c.rest.head? = _ ∧ _) ∧ (x.kind = _ ↔ _ ∧ c.rest.head? = _ ∧ _)
    by_cases hbrace : c.rest.head? = some '}'
    · obtain ⟨t, ht⟩ := List.head?_eq_some_iff.mp hbrace
      rw [ht] at found
      by_cases hdepth : 0 < l.depth
      · have hx := (Lexeme.at?_closeInterpolation t).symm.trans (decide_eq_true hdepth ▸ found)
        cases hx
        simp [pending, hbrace, hdepth]
      · have hx := (Lexeme.at?_closeBrace t).symm.trans (decide_eq_false hdepth ▸ found)
        cases hx
        simp [pending, hbrace, hdepth]
    · -- The two operators have the same text.
      have hno : ∀ o : Op, o.text.toList = ['}'] → x.kind ≠ .op o := by
        intro o ho hkind
        have htext := (Lexeme.found_of_at? found).text_of_op hkind
        rw [ho] at htext
        obtain ⟨t, ht⟩ := htext
        exact hbrace (by rw [← ht]; rfl)
      exact ⟨⟨fun h => absurd h (hno _ (by decide)), fun h => absurd h.2.1 hbrace⟩,
        ⟨fun h => absurd h (hno _ (by decide)), fun h => absurd h.2.1 hbrace⟩⟩

/-! ### Calls that consume nothing -/

/-- The second lexer is the first after a look at its text: it may have a token in view now.  Where
a string goes on it stands where it stood. -/
def Glanced (l m : Lexer) : Prop :=
  (∃ wording, m = { l with cursor := m.cursor, expected := wording, lookahead := m.lookahead }) ∧
    (l.pending.isSome = true → m.front = l.front)

theorem Glanced.refl (l : Lexer) : Glanced l l :=
  ⟨⟨_, rfl⟩, fun _ => rfl⟩

theorem glanced_unconsume (l : Lexer) : Glanced l l.unconsume :=
  ⟨⟨_, rfl⟩, fun _ => rfl⟩

theorem glanced_isDone (l : Lexer) : Glanced l (stateOf (isDone l)) := by
  rw [isDone_apply]
  by_cases hbusy : (l.lookahead.isSome || l.pending.isSome) = true
  · rw [if_pos hbusy]
    exact .refl l
  · rw [if_neg hbusy]
    refine ⟨⟨_, rfl⟩, fun hpending => ?_⟩
    rw [hpending, Bool.or_true] at hbusy
    exact absurd rfl hbusy

/-- A string that does not go on well leaves the lexer where it is. -/
theorem eq_of_read_error {q : Quote} (hpending : l.pending = some q) {m : Lexer} {e : SyntaxError}
    (h : Rules.read interpolation l = .error e m) : m = l := by
  rw [Rules.read_apply, hpending] at h
  simp only at h
  split at h
  · cases h
  · cases h
    rfl

theorem tokenStart_of_pending (hpending : l.pending.isSome = true) : l.tokenStart = l.cursor := by
  rw [tokenStart, if_pos hpending]

variable (interpolation) in
/-- A look ahead changes nothing of what is consumed next. -/
theorem glanced_peek (l : Lexer) :
    Ends (Rules.peek interpolation) l
      (fun _ m => Glanced l m ∧ ∀ ahead, m.lookahead = some ahead → ahead.start = l.nextStart)
      (fun _ m => Glanced l m) := by
  unfold Ends
  rw [Rules.peek_apply]
  cases hview : l.lookahead with
  | some ahead =>
    refine ⟨.refl l, fun ahead' hview' => ?_⟩
    cases hview.symm.trans hview'
    rw [nextStart, hview]
  | none =>
    have hread := Rules.ends_read interpolation l
    cases hresult : Rules.read interpolation l with
    | error e m =>
      obtain ⟨-, wording, hm⟩ := hread.of_error hresult
      refine ⟨⟨wording, by rw [hm]⟩, fun hpending => ?_⟩
      obtain ⟨q, hq⟩ := Option.isSome_iff_exists.mp hpending
      rw [eq_of_read_error hq hresult]
    | ok found m =>
      obtain ⟨⟨-, wording, hm⟩, hfound⟩ := hread.of_ok hresult
      refine ⟨⟨⟨wording, by rw [hm]⟩, fun hpending => ?_⟩, fun ahead hahead => ?_⟩
      · cases found with
        | none =>
          rw [hfound.1] at hpending
          cases hpending
        | some ahead =>
          show ahead.start = l.front
          rw [hfound.1, tokenStart_of_pending hpending, front_of_lookahead hview]
      · cases (hahead : found = some ahead)
        rw [hfound.1, nextStart, hview]

end Lexer

/-! ### What a session keeps -/

/-- What a lexer remembers of the open interpolations is what its tokens say. -/
structure Reckoned (l : Lexer) (us : List Consumed) : Prop where
  counted : l.pushes = l.pops + l.depth
  segment : l.openSegment = (cutBy us).isSome
  /-- The interpolation that cuts a string short is open before its opening is consumed. -/
  around : ∃ outer, Around us outer ∧ l.interpolations = (cutBy us).toList.map some ++ outer
  resume : ∀ u, us.getLast? = some u → u.token.kind = .op .closeInterpolation →
    ∃ before, ClosesBehind before us ∧ l.resume = cutBy before

namespace Reckoned

variable {l : Lexer} {us : List Consumed} {ahead : Lookahead} {u : Consumed}

/-- Where no string was cut short, the open interpolations are those of the tokens. -/
theorem around_of_whole (h : Reckoned l us) (hwhole : l.openSegment = false) :
    cutBy us = none ∧ Around us l.interpolations := by
  obtain ⟨outer, haround, hstack⟩ := h.around
  have hnone : cutBy us = none := by
    rw [← Option.not_isSome_iff_eq_none, ← h.segment, hwhole]
    exact Bool.false_ne_true
  rw [hnone] at hstack
  exact ⟨hnone, hstack ▸ haround⟩

/-- Only a closing makes a string go on. -/
theorem resume_of_ne_close (hkind : u.token.kind ≠ .op .closeInterpolation) {r : Option Quote} :
    ∀ w, (us ++ [u]).getLast? = some w → w.token.kind = .op .closeInterpolation →
      ∃ before, ClosesBehind before (us ++ [u]) ∧ r = cutBy before := by
  intro w hw hclose
  rw [List.getLast?_concat] at hw
  cases hw
  exact absurd hclose hkind

theorem consume_open (h : Reckoned l us) (htoken : u.token = ahead.token)
    (hcut : u.cut? = ahead.opens) (hkind : ahead.token.kind = .op .openInterpolation)
    (hwhole : ahead.opens = none) : Reckoned (l.consume ahead) (us ++ [u]) := by
  have hnone : cutBy (us ++ [u]) = none := by rw [Consumed.cutBy_concat, hcut, hwhole]
  have hopen : u.token.kind = .op .openInterpolation := by rw [htoken, hkind]
  have hne : u.token.kind ≠ .op .closeInterpolation := by
    rw [hopen]
    rintro ⟨⟩
  have hcounted : l.pushes = l.pops + l.interpolations.length := h.counted
  rw [Lexer.consume_eq hwhole, Lexer.note_open hkind]
  -- The interpolation of a string cut short was opened when the string was consumed.
  by_cases hsegment : l.openSegment = true
  · obtain ⟨outer, haround, hstack⟩ := h.around
    obtain ⟨q, hq⟩ := Option.isSome_iff_exists.mp (h.segment.symm.trans hsegment)
    rw [if_pos hsegment]
    refine ⟨hcounted, ?_, ⟨_, haround.opening hopen, ?_⟩, resume_of_ne_close hne⟩
    · rw [hnone]
      rfl
    · rw [hnone]
      show l.interpolations = _
      rw [hstack, hq]
      rfl
  · have hfalse := Bool.eq_false_iff.mpr hsegment
    obtain ⟨hus, haround⟩ := h.around_of_whole hfalse
    rw [if_neg hsegment]
    refine ⟨?_, ?_, ⟨_, haround.opening hopen, ?_⟩, resume_of_ne_close hne⟩
    · show l.pushes + 1 = l.pops + (l.interpolations.length + 1)
      omega
    · rw [hnone]
      exact hfalse
    · rw [hnone, hus]
      rfl

theorem consume_close (h : Reckoned l us) (htoken : u.token = ahead.token)
    (hcut : u.cut? = ahead.opens) (hkind : ahead.token.kind = .op .closeInterpolation)
    (hwhole : ahead.opens = none) (hinside : 0 < l.depth) (hsegment : l.openSegment = false) :
    Reckoned (l.consume ahead) (us ++ [u]) := by
  have hnone : cutBy (us ++ [u]) = none := by rw [Consumed.cutBy_concat, hcut, hwhole]
  have hcounted : l.pushes = l.pops + l.interpolations.length := h.counted
  obtain ⟨around, outer, houter⟩ := List.exists_cons_of_length_pos hinside
  obtain ⟨_, haround⟩ := h.around_of_whole hsegment
  rw [houter] at haround hcounted
  rw [List.length_cons] at hcounted
  obtain ⟨hrest, before, hbefore, hq⟩ := haround.closing (htoken ▸ hkind)
  rw [Lexer.consume_eq hwhole, Lexer.note_close hkind houter]
  refine ⟨?_, ?_, ⟨_, hrest, ?_⟩, fun _ _ _ => ⟨before, hbefore, hq.symm⟩⟩
  · show l.pushes = l.pops + 1 + outer.length
    omega
  · rw [hnone]
    exact hsegment
  · rw [hnone]
    rfl

theorem consume_segment (h : Reckoned l us) (htoken : u.token = ahead.token)
    (hcut : u.cut? = ahead.opens) {v : Text} {q : Quote} (hkind : ahead.token.kind = .string v q)
    (hopens : ahead.opens = some q) (hsegment : l.openSegment = false) :
    Reckoned (l.consume ahead) (us ++ [u]) := by
  have hopen : ahead.token.kind ≠ .op .openInterpolation := by
    rw [hkind]
    rintro ⟨⟩
  have hclose : ahead.token.kind ≠ .op .closeInterpolation := by
    rw [hkind]
    rintro ⟨⟩
  have hlegacy : ∀ name, ahead.token.kind ≠ .var name true := by
    rw [hkind]
    rintro _ ⟨⟩
  have hsome : cutBy (us ++ [u]) = some q := by rw [Consumed.cutBy_concat, hcut, hopens]
  have hcounted : l.pushes = l.pops + l.interpolations.length := h.counted
  obtain ⟨_, haround⟩ := h.around_of_whole hsegment
  rw [Lexer.consume_cut hopens, Lexer.note_eq hopen hclose hlegacy]
  refine ⟨?_, ?_, ⟨_, haround.other (htoken ▸ hopen) (htoken ▸ hclose), ?_⟩,
    resume_of_ne_close (htoken ▸ hclose)⟩
  · show l.pushes + 1 = l.pops + (l.interpolations.length + 1)
    omega
  · rw [hsome]
    rfl
  · rw [hsome]
    rfl

theorem consume_other (h : Reckoned l us) (htoken : u.token = ahead.token)
    (hcut : u.cut? = ahead.opens) (hopen : ahead.token.kind ≠ .op .openInterpolation)
    (hclose : ahead.token.kind ≠ .op .closeInterpolation) (hwhole : ahead.opens = none)
    (hsegment : l.openSegment = false) : Reckoned (l.consume ahead) (us ++ [u]) := by
  have hnone : cutBy (us ++ [u]) = none := by rw [Consumed.cutBy_concat, hcut, hwhole]
  obtain ⟨_, haround⟩ := h.around_of_whole hsegment
  obtain ⟨hpushes, hpops⟩ := Lexer.counts_note (l := l) hopen hclose
  obtain ⟨hstack, hsame⟩ := Lexer.interpolations_note (l := l) hopen hclose
  rw [Lexer.consume_eq hwhole]
  refine ⟨?_, ?_, ⟨_, haround.other (htoken ▸ hopen) (htoken ▸ hclose), ?_⟩,
    resume_of_ne_close (htoken ▸ hclose)⟩
  · show (l.note ahead.token).pushes = (l.note ahead.token).pops +
      (l.note ahead.token).interpolations.length
    rw [hpushes, hpops, hstack]
    exact h.counted
  · rw [hnone]
    exact hsame.trans hsegment
  · rw [hnone]
    exact hstack

end Reckoned

namespace Session

open Lexer (Run Glanced)

/-- A lexer that calls lead to, and its tokens. -/
structure Faithful (c : Cursor) (options : Options) (l : Lexer) (us : List Consumed) : Prop where
  run : Run Lexer.interpolation (.ofCursor c options) (tokens us) l
  reckoned : Reckoned l us
  previous : l.previous = us.getLast?.map (·.token)
  previousEnd : ∀ u, us.getLast? = some u → l.previousEnd = u.stop
  place : l.pending.isSome = true → l.front = l.previousEnd

variable {c : Cursor} {options : Options} {l m : Lexer} {us : List Consumed}

theorem faithful_ofCursor (c : Cursor) (options : Options) :
    Faithful c options (.ofCursor c options) [] where
  run := .start
  reckoned := ⟨rfl, rfl, ⟨[], .outside Token.balanced_nil, rfl⟩, nofun⟩
  previous := rfl
  previousEnd := nofun
  place := nofun

theorem Faithful.glance (h : Faithful c options l us) (hm : Glanced l m)
    (hrun : Run Lexer.interpolation (.ofCursor c options) (tokens us) m) :
    Faithful c options m us := by
  obtain ⟨⟨wording, hm⟩, hplace⟩ := hm
  have hpending : m.pending = l.pending := by
    rw [hm]
    rfl
  refine ⟨hrun, ?_, ?_, ?_, ?_⟩
  · rw [hm]
    exact ⟨h.reckoned.counted, h.reckoned.segment, h.reckoned.around, h.reckoned.resume⟩
  · rw [hm]
    exact h.previous
  · rw [hm]
    exact h.previousEnd
  · intro hresumes
    rw [hpending] at hresumes
    rw [hplace hresumes, h.place hresumes, hm]

/-- **What a consumed token keeps.** -/
theorem Faithful.consume {ahead : Lookahead} (h : Faithful c options l us)
    (hview : l.lookahead = some ahead) :
    Faithful c options (l.consume ahead) (us ++ [l.record ahead]) := by
  have htoken := (h.run.sound rfl).view ahead hview
  have hfront : ahead.start = l.front := by rw [Lexer.front, hview]
  have hcut := Lexer.cut?_record htoken
  -- Where a string was cut short, only the opening of its interpolation comes next.
  have hwhole : ahead.token.kind ≠ .op .openInterpolation → l.openSegment = false := by
    intro hkind
    rw [Bool.eq_false_iff]
    exact fun hopen => hkind (h.run.tracks.token_of_cut hopen htoken hfront).1
  refine ⟨?_, ?_, ?_, fun u hu => ?_, fun _ => ?_⟩
  · rw [Consumed.tokens_append]
    exact h.run.consume hview
  · cases Lexer.effect_of_tokenAt htoken with
    | opens kind whole => exact h.reckoned.consume_open rfl hcut kind whole
    | closes kind whole inside =>
      exact h.reckoned.consume_close rfl hcut kind whole inside (hwhole (by rw [kind]; rintro ⟨⟩))
    | cuts v q kind cut goesOn =>
      exact h.reckoned.consume_segment rfl hcut kind cut (hwhole (by rw [kind]; rintro ⟨⟩))
    | nothing open_ close whole =>
      exact h.reckoned.consume_other rfl hcut open_ close whole (hwhole open_)
  · rw [List.getLast?_concat]
    rfl
  · rw [List.getLast?_concat] at hu
    cases hu
    rw [Lexer.previousEnd_consume]
    rfl
  · rw [Lexer.front_consume, Lexer.previousEnd_consume]

/-- **What a call keeps.** -/
theorem Faithful.ask {s : Session} (h : Faithful c options s.lexer s.consumed) (q : Query) :
    Faithful c options (s.ask q).lexer (s.ask q).consumed := by
  cases q with
  | next =>
    have hpeek := Lexer.glanced_peek Lexer.interpolation s.lexer
    have hruns := Lexer.ends_peek h.run
    have hnext : Lexer.next s.lexer = _ := Lexer.Rules.next_eq s.lexer
    rw [Session.ask, hnext]
    cases hresult : Lexer.Rules.peek Lexer.interpolation s.lexer with
    | error e m => exact h.glance (hpeek.of_error hresult) (hruns.of_error hresult)
    | ok t m =>
      obtain ⟨hglanced, hstart⟩ := hpeek.of_ok hresult
      have hm := h.glance hglanced (hruns.of_ok hresult).1
      cases hview : m.lookahead with
      | none =>
        simp only [hview]
        exact hm
      | some ahead =>
        have hpending : s.lexer.pending = m.pending := by
          obtain ⟨⟨wording, hglanced⟩, -⟩ := hglanced
          rw [hglanced]
          rfl
        have hrecord : (⟨ahead.token, s.lexer.nextStart, (m.consume ahead).previousEnd,
            s.lexer.pending.isSome⟩ : Consumed) = m.record ahead := by
          rw [← hstart ahead hview, Lexer.previousEnd_consume, hpending]
          rfl
        simp only [hview, hrecord]
        exact hm.consume hview
  | peek =>
    have hpeek := Lexer.glanced_peek Lexer.interpolation s.lexer
    have hruns := Lexer.ends_peek h.run
    show Faithful c options (stateOf (Lexer.Rules.peek Lexer.interpolation s.lexer)) s.consumed
    cases hresult : Lexer.Rules.peek Lexer.interpolation s.lexer with
    | error e m => exact h.glance (hpeek.of_error hresult) (hruns.of_error hresult)
    | ok t m => exact h.glance (hpeek.of_ok hresult).1 (hruns.of_ok hresult).1
  | unconsume => exact h.glance (Lexer.glanced_unconsume s.lexer) h.run.putBack
  | isDone =>
    have hruns := Lexer.ends_isDone h.run
    have hglanced := Lexer.glanced_isDone s.lexer
    rw [Session.ask]
    cases hresult : Lexer.isDone s.lexer with
    | error e m => exact (hruns.of_error hresult).elim
    | ok done m =>
      rw [hresult] at hglanced
      exact h.glance hglanced (hruns.of_ok hresult).1

theorem faithful_run (c : Cursor) (options : Options) (queries : List Query) :
    Faithful c options ((ofCursor c options).run queries).lexer
      ((ofCursor c options).run queries).consumed := by
  -- A session is asked at its end, so the induction is from there.
  induction queries using List.reverseRecOn with
  | nil => exact faithful_ofCursor c options
  | append_singleton queries q ih =>
    rw [run, List.foldl_append]
    exact ih.ask q

/-! ### What the next call offers -/

theorem Faithful.offer_eq (h : Faithful c options l us) : answer (Lexer.peek l) = l.offer := by
  have hruns := Lexer.ends_peek h.run
  have hnext : Lexer.next l = _ := Lexer.Rules.next_eq l
  rw [Lexer.offer, hnext]
  show answer (Lexer.Rules.peek Lexer.interpolation l) = _
  cases hresult : Lexer.Rules.peek Lexer.interpolation l with
  | error e m => rfl
  | ok t m =>
    obtain ⟨-, -, ht, -⟩ := hruns.of_ok hresult
    rw [ht]
    cases hview : m.lookahead <;> simp only [hview] <;> rfl

/-- A token that is offered is in view after a look ahead. -/
theorem Faithful.exists_view (h : Faithful c options l us) {t : Token}
    (hoffer : l.offer = .ok (some t)) :
    ∃ m ahead, Glanced l m ∧ Faithful c options m us ∧ m.lookahead = some ahead ∧ ahead.token = t ∧
      ahead.start = l.nextStart := by
  rw [← h.offer_eq] at hoffer
  replace hoffer : answer (Lexer.Rules.peek Lexer.interpolation l) = _ := hoffer
  cases hresult : Lexer.Rules.peek Lexer.interpolation l with
  | error e m =>
    rw [hresult] at hoffer
    cases hoffer
  | ok found m =>
    obtain ⟨hglanced, hstart⟩ := (Lexer.glanced_peek Lexer.interpolation l).of_ok hresult
    obtain ⟨hrun, -, hfound, -⟩ := (Lexer.ends_peek h.run).of_ok hresult
    rw [hresult] at hoffer
    replace hoffer : found = some t := Except.ok.inj hoffer
    obtain ⟨ahead, hview, htoken⟩ := Option.map_eq_some_iff.mp (hfound.symm.trans hoffer)
    exact ⟨m, ahead, hglanced, h.glance hglanced hrun, hview, htoken, hstart ahead hview⟩

/-- Nothing is offered only at the end of the text, where no string goes on. -/
theorem Faithful.end_of_offer (h : Faithful c options l us) (hoffer : l.offer = .ok none) :
    l.pending = none ∧ l.openSegment = false := by
  rw [← h.offer_eq] at hoffer
  replace hoffer : answer (Lexer.Rules.peek Lexer.interpolation l) = _ := hoffer
  cases hresult : Lexer.Rules.peek Lexer.interpolation l with
  | error e m =>
    rw [hresult] at hoffer
    cases hoffer
  | ok found m =>
    obtain ⟨⟨⟨wording, hm⟩, -⟩, -⟩ := (Lexer.glanced_peek Lexer.interpolation l).of_ok hresult
    obtain ⟨hrun, -, -, hend⟩ := (Lexer.ends_peek h.run).of_ok hresult
    rw [hresult] at hoffer
    obtain ⟨hview, hpending, hatEnd⟩ := hend (Except.ok.inj hoffer)
    have hsegment : m.openSegment = false := by
      refine Bool.eq_false_iff.mpr fun hcut => ?_
      obtain ⟨-, t, hrest⟩ := hrun.tracks.cut hcut
      rw [Lexer.front_of_lookahead hview] at hrest
      rw [Cursor.atEnd, hrest] at hatEnd
      cases hatEnd
    rw [hm] at hpending hsegment
    exact ⟨hpending, hsegment⟩

/-- Behind a string that was cut short something is offered. -/
theorem Faithful.offer_ne_error (h : Faithful c options l us) (hcut : l.openSegment = true)
    (e : SyntaxError) : l.offer ≠ .error e := by
  rw [← h.offer_eq]
  show answer (Lexer.Rules.peek Lexer.interpolation l) ≠ _
  rw [Lexer.Rules.peek_apply]
  cases hview : l.lookahead with
  | some ahead => exact nofun
  | none =>
    cases hread : Lexer.Rules.read Lexer.interpolation l with
    | error e' m => exact absurd hread (h.run.tracks.read_of_cut hcut hview)
    | ok found m => exact nofun

theorem Faithful.nextStart_of_pending (h : Faithful c options l us)
    (hpending : l.pending.isSome = true) : l.nextStart = l.previousEnd := by
  rw [← h.place hpending, Lexer.nextStart, Lexer.front]
  cases l.lookahead with
  | some ahead => rfl
  | none => exact Lexer.tokenStart_of_pending hpending

/-! ### The discipline of a session -/

/-- **What the consumed tokens decide.**  The tokens that were consumed, and where the strings among
them were cut short, decide how many interpolations are open, what a closing brace is, and whether a
string goes on. -/
structure Disciplined (s : Session) : Prop where
  /-- A look ahead shows what is consumed next. -/
  peek : answer (Lexer.peek s.lexer) = s.lexer.offer
  counted : s.lexer.pushes = s.lexer.pops + s.lexer.depth
  nested : closed (tokens s.consumed) ≤ opened (tokens s.consumed)
  depth : s.lexer.depth = opened (tokens s.consumed) - closed (tokens s.consumed) +
    if (cutBy s.consumed).isSome then 1 else 0
  /-- Behind a string that was cut short its interpolation opens. -/
  cut : (cutBy s.consumed).isSome = true →
    ∃ t, s.lexer.offer = .ok (some t) ∧ t.kind = .op .openInterpolation
  /-- A closing brace belongs to an interpolation if one is open. -/
  closing : ∀ t, s.lexer.offer = .ok (some t) → (t.kind = .op .closeInterpolation ↔
    s.lexer.pending = none ∧ s.lexer.nextStart.rest.head? = some '}' ∧
      closed (tokens s.consumed) < opened (tokens s.consumed))
  /-- A closing brace belongs to the stylesheet if no interpolation is open. -/
  brace : ∀ t, s.lexer.offer = .ok (some t) → (t.kind = .op .closeBrace ↔
    s.lexer.pending = none ∧ s.lexer.nextStart.rest.head? = some '}' ∧
      ¬ closed (tokens s.consumed) < opened (tokens s.consumed))
  /-- A closing belongs to one opening. -/
  matched : ∀ e, s.consumed.getLast? = some e → e.token.kind = .op .closeInterpolation →
    ∃ before, ClosesBehind before s.consumed ∧
      ∀ before', ClosesBehind before' s.consumed → before' = before
  /-- A string goes on behind the closing of the interpolation that cut it short. -/
  pending : ∀ q, s.lexer.pending = some q ↔
    ∃ before, ClosesBehind before s.consumed ∧ cutBy before = some q
  /-- What goes on is a string in the same quotes, right behind the closing brace. -/
  resumed : ∀ q, s.lexer.pending = some q → ∃ e, s.consumed.getLast? = some e ∧
    s.lexer.nextStart = e.stop ∧
      ((∃ v, s.lexer.offer = .ok (some ⟨.string v q, e.stop.location⟩)) ∨
        ∃ error, s.lexer.offer = .error error)

/-- Inside of an interpolation that its tokens left open is inside of an interpolation. -/
theorem Faithful.inside_iff (h : Faithful c options l us) (hbrace : l.front.rest.head? = some '}') :
    0 < l.depth ↔ closed (tokens us) < opened (tokens us) := by
  have hwhole : l.openSegment = false := by
    refine Bool.eq_false_iff.mpr fun hcut => ?_
    obtain ⟨-, t, hrest⟩ := h.run.tracks.cut hcut
    rw [hrest] at hbrace
    cases hbrace
  have hdepth := h.run.tracks.depth_of_whole hwhole
  omega

theorem Faithful.braces (h : Faithful c options l us) {t : Token}
    (hoffer : l.offer = .ok (some t)) :
    (t.kind = .op .closeInterpolation ↔ l.pending = none ∧ l.nextStart.rest.head? = some '}' ∧
      closed (tokens us) < opened (tokens us)) ∧
    (t.kind = .op .closeBrace ↔ l.pending = none ∧ l.nextStart.rest.head? = some '}' ∧
      ¬ closed (tokens us) < opened (tokens us)) := by
  obtain ⟨m, ahead, ⟨⟨wording, hm⟩, -⟩, hfaithful, hview, rfl, hstart⟩ := h.exists_view hoffer
  have hpending : m.pending = l.pending := by
    rw [hm]
    rfl
  have hfront : m.front = l.nextStart := by
    rw [← hstart, Lexer.front, hview]
  have hbraces := Lexer.brace_of_tokenAt ((hfaithful.run.sound rfl).view ahead hview)
  rw [hpending, hstart] at hbraces
  by_cases hbrace : l.nextStart.rest.head? = some '}'
  · have hinside := hfaithful.inside_iff (hfront ▸ hbrace)
    rw [hinside] at hbraces
    exact hbraces
  · refine ⟨?_, ?_⟩
    · exact hbraces.1.trans ⟨fun hk => absurd hk.2.1 hbrace, fun hk => absurd hk.2.1 hbrace⟩
    · exact hbraces.2.trans ⟨fun hk => absurd hk.2.1 hbrace, fun hk => absurd hk.2.1 hbrace⟩

theorem Faithful.pending_iff (h : Faithful c options l us) (q : Quote) :
    l.pending = some q ↔ ∃ before, ClosesBehind before us ∧ cutBy before = some q := by
  have hpending : l.pending = if l.previous.any (·.isOp .closeInterpolation) then l.resume
      else none :=
    rfl
  rw [hpending, h.previous]
  constructor
  · intro hq
    cases hlast : us.getLast? with
    | none =>
      rw [hlast] at hq
      cases hq
    | some e =>
      rw [hlast] at hq
      by_cases hclose : e.token.kind = .op .closeInterpolation
      · obtain ⟨before, hbefore, hresume⟩ := h.reckoned.resume e hlast hclose
        simp only [Option.map_some, Option.any_some, Token.isOp_iff.mpr hclose, if_true] at hq
        exact ⟨before, hbefore, hresume.symm.trans hq⟩
      · simp only [Option.map_some, Option.any_some, Token.isOp_eq_false hclose, Bool.false_eq_true,
          if_false] at hq
        cases hq
  · rintro ⟨before, hbefore, hq⟩
    obtain ⟨e, hlast, hclose⟩ := hbefore.exists_last
    obtain ⟨before', hbefore', hresume⟩ := h.reckoned.resume e hlast hclose
    simp only [hlast, Option.map_some, Option.any_some, Token.isOp_iff.mpr hclose, if_true]
    rw [hresume, hbefore'.unique hbefore, hq]

theorem Faithful.resumed (h : Faithful c options l us) {q : Quote} (hpending : l.pending = some q) :
    ∃ e, us.getLast? = some e ∧ l.nextStart = e.stop ∧
      ((∃ v, l.offer = .ok (some ⟨.string v q, e.stop.location⟩)) ∨
        ∃ error, l.offer = .error error) := by
  obtain ⟨before, hbefore, -⟩ := (h.pending_iff q).mp hpending
  obtain ⟨e, hlast, -⟩ := hbefore.exists_last
  have hplace : l.nextStart = e.stop := by
    rw [h.nextStart_of_pending (by rw [hpending]; rfl), h.previousEnd e hlast]
  refine ⟨e, hlast, hplace, ?_⟩
  cases hoffer : l.offer with
  | error error => exact .inr ⟨error, rfl⟩
  | ok found =>
    cases found with
    | none =>
      rw [(h.end_of_offer hoffer).1] at hpending
      cases hpending
    | some t =>
      obtain ⟨m, ahead, ⟨⟨wording, hm⟩, -⟩, hfaithful, hview, rfl, hstart⟩ := h.exists_view hoffer
      have hm' : m.pending = some q := by
        rw [hm]
        exact hpending
      have htoken := (hfaithful.run.sound rfl).view ahead hview
      rw [hplace] at hstart
      generalize m.cursor = d at htoken
      cases htoken with
      | segment c' q' x pending found =>
        cases hm'.symm.trans pending
        obtain ⟨⟨v, hkind⟩, -⟩ := Lexeme.segment?_eq_some found
        refine .inl ⟨v, ?_⟩
        rw [← hkind, ← hstart]
        rfl
      | lexeme c' x pending found => cases hm'.symm.trans pending
      | special c' head body parts inner pending => cases hm'.symm.trans pending

/-- **A lexer keeps the discipline of its interpolations** in every session, whatever it is asked
and whichever calls fail. -/
theorem disciplined (c : Cursor) (options : Options) (queries : List Query) :
    Disciplined ((ofCursor c options).run queries) := by
  have h := faithful_run c options queries
  have htracks := h.run.tracks
  have hnested := htracks.nested _ (List.prefix_refl _)
  refine ⟨h.offer_eq, h.reckoned.counted, hnested, ?_, fun hcut => ?_, fun t ht => (h.braces ht).1,
    fun t ht => (h.braces ht).2, fun e hlast hclose => ?_, h.pending_iff, fun q hq => h.resumed hq⟩
  · have hdepth := htracks.depth
    rw [h.reckoned.segment] at hdepth
    omega
  · have hsegment := h.reckoned.segment.trans hcut
    cases hoffer : ((ofCursor c options).run queries).lexer.offer with
    | error e => exact absurd hoffer (h.offer_ne_error hsegment e)
    | ok found =>
      cases found with
      | none =>
        rw [(h.end_of_offer hoffer).2] at hsegment
        cases hsegment
      | some t =>
        obtain ⟨m, ahead, ⟨⟨wording, hm⟩, -⟩, hfaithful, hview, rfl, -⟩ := h.exists_view hoffer
        refine ⟨ahead.token, rfl, ?_⟩
        refine (hfaithful.run.tracks.token_of_cut ?_
          ((hfaithful.run.sound rfl).view ahead hview) ?_).1
        · rw [hm]
          exact hsegment
        · rw [Lexer.front, hview]
  · obtain ⟨before, hbefore, -⟩ := h.reckoned.resume e hlast hclose
    exact ⟨before, hbefore, fun before' hbefore' => hbefore'.unique hbefore⟩

end Session
end Stylesheet
