import Stylesheet.Proofs.Enclosure
import Stylesheet.Proofs.Lookahead
import Stylesheet.Proofs.Termination
import Stylesheet.Proofs.Wording

/-!
# Taking tokens in parts

A lexer that stops before a token has read that token and puts it back.  It is read once more later,
by a lexer that remembers the same of the tokens before: which interpolations are open, and which
string goes on.  So it is the same token, at the same place, and what follows is the same too; only
the wording of an error may have been used up in between (`Run.rereads`).

It follows that the tokens of a text may be taken one by one or up to any conditions, in any order:
they are the tokens of the whole, and the lexer behind them has given the same warnings and has
opened and closed as many interpolations (`taken_in_parts`).
-/
namespace Stylesheet
namespace Lexer

variable {l m n : Lexer} {t : Token} {ts us : List Token} {ahead : Lookahead}

/-! ### All that is left -/

theorem all_of_next_none (h : next l = .ok none m) : all l = .ok [] m := by
  rw [all, unfold_apply, bind_apply, h]
  rfl

/-- All tokens are the next one and all behind it. -/
theorem all_cons_iff (h : next l = .ok (some t) m) (hlt : m.size < l.size) :
    all l = .ok us n ↔ ∃ ts, us = t :: ts ∧ all m = .ok ts n := by
  have hround : all l = foundBefore [t] (all m) := by
    rw [all, unfold_apply, bind_apply, h]
    simp only [pure_apply]
    rw [if_pos hlt]
    generalize unfold size _ () m = r
    cases r <;> rfl
  rw [hround]
  cases all m with
  | error e k =>
    constructor
    · rintro ⟨⟩
    · rintro ⟨_, _, ⟨⟩⟩
  | ok ts k =>
    constructor
    · rintro ⟨⟩
      exact ⟨ts, rfl, rfl⟩
    · rintro ⟨_, rfl, ⟨⟩⟩
      rfl

/-- What a lexer gives as all its tokens is what successive calls give. -/
theorem consumes_of_all (hfresh : l.lookahead = none) (h : all l = .ok ts n) :
    ∃ m, Consumes l ts m ∧ next m = .ok none n := by
  induction hsize : l.size using Nat.strongRecOn generalizing l ts with
  | ind size ih =>
    cases hnext : next l with
    | error e m =>
      rw [all, unfold_apply, bind_apply, hnext] at h
      cases h
    | ok found m =>
      cases found with
      | none =>
        rw [all_of_next_none hnext] at h
        cases h
        exact ⟨l, .nil l, hnext⟩
      | some t =>
        have hlt := size_lt_of_next hfresh hnext
        obtain ⟨us, rfl, hus⟩ := (all_cons_iff hnext hlt).mp h
        obtain ⟨k, hconsumes, hend⟩ := ih m.size (hsize ▸ hlt) (fresh_of_next hnext) hus rfl
        exact ⟨k, .cons hnext hconsumes, hend⟩

/-! ### Another wording -/

theorem next_none_reworded (hfresh : l.lookahead = none) (wording : Option String)
    (h : next l = .ok none m) : next (l.reworded wording) = .ok none (m.reworded wording) := by
  unfold next at h ⊢
  rw [Rules.next_apply, hfresh] at h
  rw [Rules.next_apply, show (l.reworded wording).lookahead = none from hfresh]
  simp only at h ⊢
  split at h
  · cases h
  · next hread =>
    cases h
    rw [(ends_read_reworded l wording).of_ok hread]
    rfl
  · cases h

theorem consumes_reworded (hfresh : l.lookahead = none) (h : Consumes l ts m)
    (wording : Option String) :
    ∃ wording', Consumes (l.reworded wording) ts (m.reworded wording') := by
  induction h generalizing wording with
  | nil l => exact ⟨wording, .nil _⟩
  | @cons l m n t ts first others ih =>
    have hfirst := (next_reworded hfresh wording first).1
    have hm := fresh_of_next first
    split at hfirst
    · -- The wording was used up with the token.
      obtain ⟨wording', hothers⟩ := ih hm m.expected
      rw [reworded_expected] at hothers
      exact ⟨wording', .cons hfirst hothers⟩
    · obtain ⟨wording', hothers⟩ := ih hm wording
      exact ⟨wording', .cons hfirst hothers⟩

/-- The tokens of a lexer do not depend on the wording of an error. -/
theorem all_reworded (hfresh : l.lookahead = none) (h : all l = .ok ts n)
    (wording : Option String) :
    ∃ wording', all (l.reworded wording) = .ok ts (n.reworded wording') := by
  obtain ⟨m, hconsumes, hend⟩ := consumes_of_all hfresh h
  obtain ⟨wording', hconsumes'⟩ := consumes_reworded hfresh hconsumes wording
  refine ⟨wording', all_of_consumes hconsumes' hfresh ?_⟩
  exact next_none_reworded (hconsumes.fresh hfresh) wording' hend

/-! ### Other warnings -/

/-- What is read does not depend on the warnings so far. -/
theorem read_rewarned {found : Option Lookahead} (warnings : List Deprecation)
    (h : Rules.read interpolation l = .ok found m) :
    Rules.read interpolation { l with warnings := warnings } =
      .ok found { m with warnings := warnings } := by
  -- Both lexers are the one that has given no warnings, after some.
  have hold : Leftover l.warnings { l with warnings := [] } l :=
    ⟨rfl, rfl, rfl, rfl, rfl, rfl, rfl, (List.append_nil _).symm⟩
  have hnew : Leftover warnings { l with warnings := [] } { l with warnings := warnings } :=
    ⟨rfl, rfl, rfl, rfl, rfl, rfl, rfl, (List.append_nil _).symm⟩
  have hreads := simulates_read_leftover interpolation _ _ hold
  have hreads' := simulates_read_leftover interpolation _ _ hnew
  obtain ⟨⟨_, wording, hm⟩, -⟩ := (Rules.ends_read interpolation l).of_ok h
  rw [h] at hreads
  generalize Rules.read interpolation { l with warnings := [] } = r at hreads hreads'
  cases hreads with
  | @ok found' _ m₀ _ answers states =>
    cases hread : Rules.read interpolation { l with warnings := warnings } with
    | error e k =>
      rw [hread] at hreads'
      cases hreads'
    | ok found'' k =>
      rw [hread] at hreads'
      obtain ⟨⟨_, wording', hk⟩, -⟩ := (Rules.ends_read interpolation _).of_ok hread
      cases hreads' with
      | ok answers' states' =>
        have hcursor : k.cursor = m.cursor := states'.cursor.trans states.cursor.symm
        have hexpected : k.expected = m.expected := states'.expected.trans states.expected.symm
        rw [← answers, answers']
        congr 1
        rw [hk, hm] at hexpected ⊢
        rw [hcursor, show wording' = wording from hexpected]

/-! ### The token in view -/

/-- A token in view is the one that is read where it starts. -/
def Rereads (l : Lexer) : Prop :=
  ∀ ahead, l.lookahead = some ahead → ∃ m,
    Rules.read interpolation l.unconsume = .ok (some ahead) m ∧
    l = { m with lookahead := some ahead, expected := l.expected }

theorem rereads_of_fresh (h : l.lookahead = none) : l.Rereads := by
  intro ahead hview
  rw [h] at hview
  cases hview

/-- A token that is read and put back leaves the lexer where the token starts, in other words. -/
theorem putBack_of_read (hfresh : l.lookahead = none)
    (h : Rules.read interpolation l = .ok (some ahead) m) :
    { m with cursor := ahead.start, lookahead := none } = l.atToken.reworded m.expected := by
  obtain ⟨⟨_, wording, hm⟩, hplace, -⟩ := (Rules.ends_read interpolation l).of_ok h
  rw [hplace, hm, atToken, ← hfresh]
  rfl

theorem rereads_of_read (hfresh : l.lookahead = none)
    (h : Rules.read interpolation l = .ok (some ahead) m) :
    Rereads { m with lookahead := some ahead } := by
  rintro _ ⟨⟩
  have hback : { m with lookahead := some ahead }.unconsume = l.atToken.reworded m.expected :=
    putBack_of_read (m := m) hfresh h
  rw [← read_atToken] at h
  have hagain := (ends_read_reworded l.atToken m.expected).of_ok h
  rw [hback]
  refine ⟨m, ?_, rfl⟩
  rw [hagain]
  split
  · rfl
  · rfl

/-- **A token that was put back is read again.**  Whatever a lexer was asked, the token that it has
in view is the one that it would read once more. -/
theorem Run.rereads {start : Lexer} (hstart : start.lookahead = none)
    (h : Run interpolation start ts l) : l.Rereads := by
  induction h with
  | start => exact rereads_of_fresh hstart
  | @reword _ l wording _ ih =>
    intro ahead hview
    obtain ⟨m, hread, hl⟩ := ih ahead hview
    have hagain := (ends_read_reworded l.unconsume wording).of_ok hread
    refine ⟨_, hagain, ?_⟩
    split
    · conv_lhs => rw [hl]
    · conv_lhs => rw [hl]
      rfl
  | @rewarn _ l warnings _ ih =>
    intro ahead hview
    obtain ⟨m, hread, hl⟩ := ih ahead hview
    refine ⟨_, read_rewarned warnings hread, ?_⟩
    conv_lhs => rw [hl]
  | @skip _ l _ hview _ _ => exact rereads_of_fresh ((moved_skipTrivia l).lookahead.trans hview)
  | look _ hview hread _ => exact rereads_of_read hview hread
  | stop _ hview hread _ =>
    exact rereads_of_fresh
      (((Rules.ends_read interpolation _).of_error hread).lookahead.trans hview)
  | putBack _ _ => exact rereads_of_fresh rfl
  | consume _ _ _ => exact rereads_of_fresh rfl
  | brace _ hview _ _ => exact rereads_of_fresh hview

section
variable {p : Token → Bool}

/-- What a lexer does with the token in view is what it would do without having looked at it. -/
theorem Rereads.next_unconsume (h : l.Rereads) (hview : l.lookahead = some ahead) :
    ∃ k, next l.unconsume = .ok (some ahead.token) k ∧ l.consume ahead = k.reworded l.expected := by
  obtain ⟨m, hread, hl⟩ := h ahead hview
  refine ⟨m.consume ahead, Rules.next_of_read rfl hread, ?_⟩
  have hsame : l = { m with lookahead := some ahead }.reworded l.expected := hl
  conv_lhs => rw [hsame]
  rw [consume_reworded, consume_view]

/-- The token in view is one at the place where it starts, for the lexer that has put it back. -/
theorem Rereads.token (h : l.Rereads) (hview : l.lookahead = some ahead) :
    Rules.TokenAt interpolation l.unconsume ahead l.cursor := by
  obtain ⟨m, hread, hl⟩ := h ahead hview
  obtain ⟨-, -, htoken⟩ := (Rules.ends_read interpolation _).of_ok hread
  have hcursor : l.cursor = m.cursor := by rw [hl]
  rwa [hcursor]

theorem next_of_view (hview : l.lookahead = some ahead) :
    next l = .ok (some ahead.token) (l.consume ahead) := by
  unfold next
  rw [Rules.next_apply, hview]

theorem Rereads.size_lt (h : l.Rereads) (hview : l.lookahead = some ahead) :
    (l.consume ahead).size < l.size := by
  obtain ⟨k, hnext, hsame⟩ := h.next_unconsume hview
  have hlt : k.size < l.unconsume.size := size_lt_of_next rfl hnext
  rw [hsame]
  exact hlt

theorem Rereads.size_lt_of_next (h : l.Rereads) (hnext : next l = .ok (some t) m) :
    m.size < l.size := by
  cases hview : l.lookahead with
  | none => exact Lexer.size_lt_of_next hview hnext
  | some ahead =>
    rw [next_of_view hview] at hnext
    cases hnext
    exact h.size_lt hview

/-- A lexer gives the same tokens from the place where the token in view starts. -/
theorem Rereads.all_unconsume (h : l.Rereads) (hall : all l = .ok ts n) :
    ∃ wording, all l.unconsume = .ok ts (n.reworded wording) := by
  cases hview : l.lookahead with
  | none =>
    rw [unconsume_of_lookahead hview]
    exact ⟨n.expected, by rw [reworded_expected, hall]⟩
  | some ahead =>
    obtain ⟨k, hnext, hsame⟩ := h.next_unconsume hview
    obtain ⟨us, rfl, hus⟩ := (all_cons_iff (next_of_view hview) (h.size_lt hview)).mp hall
    obtain ⟨wording, hus⟩ := all_reworded (l := l.consume ahead) rfl hus k.expected
    have hk : (l.consume ahead).reworded k.expected = k := by rw [hsame]; rfl
    rw [hk] at hus
    have hlt : k.size < l.unconsume.size := Lexer.size_lt_of_next rfl hnext
    exact ⟨wording, (all_cons_iff hnext hlt).mpr ⟨us, rfl, hus⟩⟩

/-! ### Stopping before a token -/

/-- A lexer that stands right where the next of some tokens starts, with nothing in view; these are
all that is left. -/
structure StandsBefore (m : Lexer) (ts : List Token) (n : Lexer) : Prop where
  fresh : m.lookahead = none
  place : ∀ t ∈ ts.head?, m.cursor.location = t.location
  atEnd : ts = [] → m.cursor.atEnd = true
  rest : ∃ wording, all m = .ok ts (n.reworded wording)

theorem standsBefore_atToken (hfresh : l.lookahead = none) (h : Consumes l ts m)
    (hend : next m = .ok none n) (wording : Option String) :
    StandsBefore (l.atToken.reworded wording) ts n := by
  have hfresh' : l.atToken.lookahead = none := hfresh
  have hsame : next l.atToken = next l := Foreseen.skipped.next hfresh
  refine ⟨hfresh, fun t ht => ?_, fun hts => ?_, ?_⟩
  · cases h with
    | nil => cases ht
    | cons first _ =>
      cases ht
      exact (location_of_next hfresh first).symm
  · cases h with
    | cons => cases hts
    | nil =>
      exact (end_of_next_none hfresh hend).2
  · refine all_reworded hfresh' ?_ wording
    cases h with
    | nil => exact all_of_next_none (hsame.trans hend)
    | cons first others => exact all_of_consumes (.cons (hsame.trans first) others) hfresh' hend

/-- How to go on up to the first token that satisfies a predicate. -/
def upTo (p : Token → Bool) (_ : Unit) (t : Token) : Option Unit :=
  if p t then none else some ()

theorem takeUntil_eq (p : Token → Bool) : takeUntil p = collectUntil (upTo p) () := rfl

theorem takeUntil_of_end (hfresh : l.lookahead = none) (h : next l = .ok none n) :
    takeUntil p l = .ok [] l.atToken := by
  obtain ⟨hpending, hend⟩ := end_of_next_none hfresh h
  rw [takeUntil_eq]
  unfold collectUntil
  rw [Rules.collectUntil_eq, bind_apply, unfold_apply]
  unfold Rules.round
  simp only [bind_apply, isDone_of_fresh hfresh, hpending, hend, Option.isNone_none, Bool.and_self,
    if_true, pure_apply, modify_apply, unconsume_atToken hfresh]

/-- **A lexer stops before the first token that satisfies a predicate.** -/
theorem takeUntil_of_consumes (hfresh : l.lookahead = none) (h : Consumes l ts m)
    (hend : next m = .ok none n) (p : Token → Bool) :
    ∃ k, takeUntil p l = .ok (ts.takeWhile fun t => !p t) k ∧
      StandsBefore k (ts.dropWhile fun t => !p t) n ∧ l.cursor.Before k.cursor := by
  induction h with
  | nil l =>
    refine ⟨l.atToken, takeUntil_of_end hfresh hend, ?_, before_tokenStart l⟩
    exact standsBefore_atToken hfresh (.nil l) hend l.expected
  | @cons l m n t ts first others ih =>
    by_cases hstop : p t = true
    · obtain ⟨ahead, k, hread, rfl, -⟩ := exists_of_next hfresh first
      have hgo : upTo p () ahead.token = none := if_pos hstop
      have hleft := collectUntil_of_left hfresh hread hgo
      rw [putBack_of_read hfresh hread, ← takeUntil_eq] at hleft
      rw [List.takeWhile_cons_of_neg (by simpa using hstop),
        List.dropWhile_cons_of_neg (by simpa using hstop)]
      exact ⟨_, hleft, standsBefore_atToken hfresh (.cons first others) hend _, before_tokenStart l⟩
    · obtain ⟨k, htake, hstands, hbefore⟩ := ih (fresh_of_next first) hend
      have hgo : upTo p () t = some () := if_neg hstop
      have htaken := collectUntil_of_taken hfresh first hgo htake
      rw [List.takeWhile_cons_of_pos (by simpa using hstop),
        List.dropWhile_cons_of_pos (by simpa using hstop)]
      have hfirst := (Consumes.cons first (.nil m)).before hfresh
      exact ⟨k, htaken, hstands, hfirst.trans hbefore⟩

theorem round_of_view {β : Type} (hview : l.lookahead = some ahead)
    (go : β → Token → Option β) (b : β) :
    Rules.round interpolation go b l =
      match go b ahead.token with
      | none => .ok ([], none) l
      | some b' => .ok ([ahead.token], some b') (l.consume ahead) := by
  have hdone : isDone l = .ok false l := by
    rw [isDone_apply, hview, Option.isSome_some, Bool.true_or, if_pos rfl]
  have hpeek : Rules.peek interpolation l = .ok (some ahead.token) l := by
    rw [Rules.peek_apply, hview]
  unfold Rules.round
  simp only [bind_apply, hdone, hpeek, Bool.false_eq_true, if_false]
  cases go b ahead.token with
  | none => rfl
  | some b' => simp only [bind_apply, Rules.next_apply, hview, Option.toList_some, pure_apply]

/-- A token that is in view already may be the one to stop at. -/
theorem takeUntil_of_all (h : l.Rereads) (hall : all l = .ok ts n) (p : Token → Bool) :
    ∃ k, takeUntil p l = .ok (ts.takeWhile fun t => !p t) k ∧
      StandsBefore k (ts.dropWhile fun t => !p t) n ∧ l.front.Before k.cursor := by
  cases hview : l.lookahead with
  | none =>
    obtain ⟨m, hconsumes, hend⟩ := consumes_of_all hview hall
    rw [front_of_lookahead hview]
    exact takeUntil_of_consumes hview hconsumes hend p
  | some ahead =>
    have hnext := next_of_view hview
    obtain ⟨us, rfl, hus⟩ := (all_cons_iff hnext (h.size_lt hview)).mp hall
    by_cases hstop : p ahead.token = true
    · have hgo : upTo p () ahead.token = none := if_pos hstop
      have htake : takeUntil p l = .ok [] l.unconsume := by
        rw [takeUntil_eq]
        unfold collectUntil
        rw [Rules.collectUntil_eq, bind_apply, unfold_apply, round_of_view hview, hgo]
        rfl
      rw [List.takeWhile_cons_of_neg (by simpa using hstop),
        List.dropWhile_cons_of_neg (by simpa using hstop)]
      refine ⟨l.unconsume, htake, ⟨rfl, ?_, nofun, h.all_unconsume hall⟩, .refl _⟩
      rintro _ ⟨⟩
      rw [(h.token hview).location]
      show l.front.location = _
      rw [front, hview]
    · have hgo : upTo p () ahead.token = some () := if_neg hstop
      have hfresh : (l.consume ahead).lookahead = none := rfl
      obtain ⟨m, hconsumes, hend⟩ := consumes_of_all hfresh hus
      obtain ⟨k, htake, hstands, hbefore⟩ := takeUntil_of_consumes hfresh hconsumes hend p
      rw [List.takeWhile_cons_of_pos (by simpa using hstop),
        List.dropWhile_cons_of_pos (by simpa using hstop)]
      refine ⟨k, ?_, hstands, ?_⟩
      · rw [takeUntil_eq] at htake ⊢
        unfold collectUntil at htake ⊢
        rw [Rules.collectUntil_eq] at htake ⊢
        obtain ⟨found, v, hmore, hfound⟩ := exists_of_bind htake
        cases hfound
        rw [bind_apply, unfold_apply, round_of_view hview, hgo]
        simp only [if_pos (h.size_lt hview), hmore]
        rfl
      · have hplace : l.front = ahead.start := by rw [front, hview]
        rw [cursor_consume] at hbefore
        rw [hplace]
        exact (h.token hview).before.trans hbefore

end

/-! ### Taking in parts -/

/-- A way to take some of the next tokens: the next one, or all before the first that satisfies a
predicate. -/
inductive Part
  | one
  | upTo (p : Token → Bool)

namespace Part

/-- Takes a part. -/
def take : Part → LexM (List Token)
  | one => Option.toList <$> next
  | upTo p => takeUntil p

def isOne : Part → Bool
  | one => true
  | upTo _ => false

end Part

/-- Takes parts, one behind the other. -/
def takeParts : List Part → LexM (List Token)
  | [] => return []
  | part :: parts => do return (← part.take) ++ (← takeParts parts)

/-- A lexer that gives tokens and then ends as another one does, whatever token it has in view. -/
structure Remains (l : Lexer) (ts : List Token) (n : Lexer) : Prop where
  rereads : l.Rereads
  all : ∃ wording, Lexer.all l = .ok ts (n.reworded wording)

theorem next_of_all_nil (h : all l = .ok [] n) : next l = .ok none n := by
  rw [all, unfold_apply, bind_apply] at h
  cases hnext : next l with
  | error e m =>
    rw [hnext] at h
    cases h
  | ok found m =>
    rw [hnext] at h
    cases found with
    | none =>
      cases h
      rfl
    | some t =>
      simp only [pure_apply] at h
      split at h
      · split at h
        · cases h
        · cases h
      · cases h

theorem Rereads.next_of_all_cons (hl : l.Rereads) (h : all l = .ok (t :: ts) n) :
    ∃ m, next l = .ok (some t) m ∧ all m = .ok ts n := by
  cases hnext : next l with
  | error e m =>
    rw [all, unfold_apply, bind_apply, hnext] at h
    cases h
  | ok found m =>
    cases found with
    | none =>
      rw [all_of_next_none hnext] at h
      cases h
    | some t' =>
      obtain ⟨us, hus, hrest⟩ := (all_cons_iff hnext (hl.size_lt_of_next hnext)).mp h
      cases hus
      exact ⟨m, rfl, hrest⟩

/-- A lexer that has no more tokens has none in view, and is only to go past white space. -/
theorem atToken_of_next_none (h : next l = .ok none n) : l.lookahead = none ∧ n = l.atToken := by
  cases hview : l.lookahead with
  | some ahead =>
    rw [next_of_view hview] at h
    cases h
  | none =>
    unfold next at h
    rw [Rules.next_apply, hview] at h
    simp only at h
    split at h
    · cases h
    · next hread =>
      cases h
      exact ⟨rfl, (tokenStart_of_read_none hread).2.2⟩
    · cases h

theorem Remains.one (h : Remains l ts n) : ∃ m, Part.one.take l = .ok (ts.take 1) m ∧
    Remains m (ts.drop 1) n := by
  obtain ⟨wording, hall⟩ := h.all
  cases ts with
  | nil =>
    have hnext := next_of_all_nil hall
    obtain ⟨hfresh, hend⟩ := atToken_of_next_none hnext
    have hagain : next (n.reworded wording) = .ok none (n.reworded wording) := by
      rw [hend, Foreseen.skipped.next hfresh, hnext, hend]
    refine ⟨n.reworded wording, ?_, rereads_of_fresh ?_, wording, all_of_next_none hagain⟩
    · rw [Part.take, map_apply, hnext]
      rfl
    · rw [hend]
      exact hfresh
  | cons t ts =>
    obtain ⟨m, hnext, hrest⟩ := h.rereads.next_of_all_cons hall
    exact ⟨m, by rw [Part.take, map_apply, hnext]; rfl, rereads_of_fresh (fresh_of_next hnext),
      wording, hrest⟩

/-- A part takes tokens from the front of what remains. -/
theorem Remains.take (h : Remains l ts n) (part : Part) : ∃ us vs m, part.take l = .ok us m ∧
    us ++ vs = ts ∧ Remains m vs n ∧ (part.isOne = true → ts ≠ [] → us ≠ []) := by
  cases part with
  | one =>
    obtain ⟨m, htake, hm⟩ := h.one
    refine ⟨_, _, m, htake, List.take_append_drop 1 ts, hm, fun _ hts hnil => ?_⟩
    cases ts with
    | nil => exact hts rfl
    | cons t ts => cases hnil
  | upTo p =>
    obtain ⟨wording, hall⟩ := h.all
    obtain ⟨m, htake, hm, -⟩ := takeUntil_of_all h.rereads hall p
    obtain ⟨wording', hrest⟩ := hm.rest
    exact ⟨_, _, m, htake, List.takeWhile_append_dropWhile,
      ⟨rereads_of_fresh hm.fresh, wording', hrest⟩, nofun⟩

/-- **Parts take the tokens from the front, and leave the others.** -/
theorem Remains.takeParts (parts : List Part) (h : Remains l ts n) :
    ∃ us vs m, Lexer.takeParts parts l = .ok us m ∧ us ++ vs = ts ∧ Remains m vs n ∧
      (ts.length ≤ parts.countP (·.isOne) → vs = []) := by
  induction parts generalizing l ts with
  | nil =>
    refine ⟨[], ts, l, rfl, rfl, h, fun hlength => ?_⟩
    exact List.length_eq_zero_iff.mp (Nat.le_zero.mp hlength)
  | cons part parts ih =>
    obtain ⟨us, vs, m, htake, rfl, hm, hone⟩ := h.take part
    obtain ⟨us', vs', k, htakes, rfl, hk, hdone⟩ := ih hm
    refine ⟨us ++ us', vs', k, ?_, List.append_assoc _ _ _, hk, fun hlength => hdone ?_⟩
    · rw [Lexer.takeParts, bind_apply, htake]
      simp only [bind_apply, htakes, pure_apply]
    · rw [List.length_append, List.countP_cons] at hlength
      by_cases hpart : part.isOne = true
      · rw [if_pos hpart] at hlength
        by_cases hleft : us ++ (us' ++ vs') = []
        · rw [(List.append_eq_nil_iff.mp hleft).2]
          exact Nat.zero_le _
        · have hpos := List.length_pos_iff.mpr (hone hpart hleft)
          omega
      · rw [if_neg hpart] at hlength
        omega

/-- **Taking tokens in parts loses nothing.**  A lexer that calls led to and that would give some
tokens up to the end of its text, stops before the first that satisfies a predicate: it gives those
before, it stands where that token starts, or at the end of the text, and what it then gives is the
rest.  So taken one by one and up to any predicates, in any order, the tokens are the same; and once
they are taken, which they are after as many single ones, the lexer has warned of the same and has
opened and closed as many interpolations. -/
theorem taken_in_parts (c : Cursor) (options : Options) (calls : List Call)
    {ts : List Token} {n : Lexer} (h : all ((ofCursor c options).after calls) = .ok ts n) :
    (∀ p : Token → Bool, ∃ m,
      takeUntil p ((ofCursor c options).after calls) = .ok (ts.takeWhile fun t => !p t) m ∧
      StandsBefore m (ts.dropWhile fun t => !p t) n ∧
      ((ofCursor c options).after calls).front.Before m.cursor) ∧
    ∀ parts : List Part, ∃ us vs m,
      takeParts parts ((ofCursor c options).after calls) = .ok us m ∧ us ++ vs = ts ∧
      (∃ wording, all m = .ok vs (n.reworded wording)) ∧
      (vs = [] → m.warnings = n.warnings ∧ m.pushes = n.pushes ∧ m.pops = n.pops) ∧
      (ts.length ≤ parts.countP (·.isOne) → vs = []) := by
  have hfresh : (ofCursor c options).lookahead = none := rfl
  obtain ⟨_, hrun⟩ := run_after hfresh calls
  have hrereads := hrun.rereads hfresh
  refine ⟨takeUntil_of_all hrereads h, fun parts => ?_⟩
  have hremains : Remains ((ofCursor c options).after calls) ts n :=
    ⟨hrereads, n.expected, by rw [reworded_expected, h]⟩
  obtain ⟨us, vs, m, htake, happend, hm, hdone⟩ := hremains.takeParts parts
  refine ⟨us, vs, m, htake, happend, hm.all, fun hvs => ?_, hdone⟩
  obtain ⟨wording, hall⟩ := hm.all
  rw [hvs] at hall
  obtain ⟨-, hend⟩ := atToken_of_next_none (next_of_all_nil hall)
  have hwarnings : (n.reworded wording).warnings = m.atToken.warnings := by rw [hend]
  have hpushes : (n.reworded wording).pushes = m.atToken.pushes := by rw [hend]
  have hpops : (n.reworded wording).pops = m.atToken.pops := by rw [hend]
  exact ⟨hwarnings.symm, hpushes.symm, hpops.symm⟩

/-- The tokens inside a string, up to the brace behind which it goes on. -/
theorem taken_in_parts_string :
    let calls := [Call.next, .peek]
    ∃ ts n, all ((ofText "\"a#\x7bb\x7dc\" d".toList 1 0 {}).after calls) = .ok ts n ∧
      ts.length = 5 ∧
      ∃ m, takeUntil (·.isOp .closeInterpolation)
          ((ofText "\"a#\x7bb\x7dc\" d".toList 1 0 {}).after calls) =
          .ok (ts.takeWhile fun t => !t.isOp .closeInterpolation) m ∧
        StandsBefore m (ts.dropWhile fun t => !t.isOp .closeInterpolation) n := by
  intro calls
  obtain ⟨ts, n, hall, hlength⟩ := exists_of_answers
    (r := all ((ofText "\"a#\x7bb\x7dc\" d".toList 1 0 {}).after calls))
    (p := fun ts _ => decide (ts.length = 5)) (by decide +kernel)
  obtain ⟨m, htake, hm, -⟩ := (taken_in_parts _ _ _ hall).1 (·.isOp .closeInterpolation)
  exact ⟨ts, n, hall, of_decide_eq_true hlength, m, htake, hm⟩

end Lexer
end Stylesheet
