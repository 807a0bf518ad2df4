import Stylesheet.Proofs.Collecting
import Stylesheet.Proofs.Session

/-!
# Looking ahead is not seen

Between two tokens a lexer may be looked at, told to put a token back and asked whether it is done,
as often as one likes.  It then stands where it stood, or at the next token, or it has that token in
view (`Lexer.Foreseen`), and from all three the next token is consumed in the same way
(`Lexer.Foreseen.next`).  So the calls that consume nothing can be left out of a conversation with a
lexer, and what they answer is what the next token turns out to be (`lookahead_transparent`).
-/
namespace Stylesheet

/-- What a call answers. -/
inductive Reply
  | token (token : Option Token)
  | done (done : Bool)
  | nothing

/-- What a lexer shows between two calls. -/
structure Sight where
  previous : Option Token
  previousEnd : Cursor
  cursor : Cursor
  warnings : List Deprecation
  depth : Nat
  pushes : Nat
  pops : Nat

/-- A call, its answer and what the lexer shows behind it. -/
structure Exchange where
  query : Query
  reply : Reply
  sight : Sight

namespace Lexer

/-- What a lexer shows. -/
def sight (l : Lexer) : Sight :=
  ⟨l.previous, l.previousEnd, l.cursor, l.warnings, l.depth, l.pushes, l.pops⟩

end Lexer

namespace Query

/-- The answer of a lexer. -/
def reply : Query → LexM Reply
  | .next => do return .token (← Lexer.next)
  | .peek => do return .token (← Lexer.peek)
  | .unconsume => do
    modify Lexer.unconsume
    return .nothing
  | .isDone => do return .done (← Lexer.isDone)

/-- The answer of a lexer with all it shows. -/
def exchange (q : Query) : LexM Exchange := do
  let reply ← q.reply
  return ⟨q, reply, (← get).sight⟩

end Query

/-- One call after the other, as long as none fails. -/
def converse : List Query → LexM (List Exchange)
  | [] => return []
  | q :: queries => do
    let e ← q.exchange
    return e :: (← converse queries)

/-- What a call that consumes a token gave. -/
def Exchange.consumed? : Exchange → Option (Option Token)
  | ⟨.next, .token t, _⟩ => some t
  | _ => none

/-- What the next call that consumes a token gives, in a conversation or behind its end. -/
def upcoming (last : Except SyntaxError (Option Token)) (es : List Exchange) :
    Except SyntaxError (Option Token) :=
  match es.findSome? Exchange.consumed? with
  | some t => .ok t
  | none => last

/-- A look ahead gives the token that is consumed next, and a lexer is done exactly if there is
none. -/
def Exchange.Foretells (e : Exchange) (upcoming : Except SyntaxError (Option Token)) : Prop :=
  (e.query = .peek → ∃ t, e.reply = .token t ∧ upcoming = .ok t) ∧
    (e.query = .isDone → (e.reply = .done true ↔ upcoming = .ok none))

namespace Lexer

variable {l m n : Lexer}

/-! ### Between two tokens -/

/-- A lexer that has no token in view, and of which nothing is expected. -/
def Settled (l : Lexer) : Prop :=
  l.lookahead = none ∧ l.expected = none

/-- The second lexer is the first after calls that consume nothing. -/
inductive Foreseen (l : Lexer) : Lexer → Prop
  | untouched : Foreseen l l
  /-- White space and comments were passed over. -/
  | skipped : Foreseen l l.atToken
  /-- The next token was read. -/
  | inView {ahead : Lookahead} {m : Lexer}
      (read : Rules.read interpolation l = .ok (some ahead) m) :
    Foreseen l { m with lookahead := some ahead }

/-- **The next token is consumed in the same way**, whatever was done before to look at it. -/
theorem Foreseen.next (hfresh : l.lookahead = none) (h : Foreseen l m) :
    Lexer.next m = Lexer.next l := by
  cases h with
  | untouched => rfl
  | skipped =>
    have hview : l.atToken.lookahead = none := hfresh
    unfold Lexer.next
    rw [Rules.next_apply, Rules.next_apply, hview, hfresh, read_atToken]
  | @inView ahead m hread =>
    have hnext : Lexer.next l = .ok (some ahead.token) (m.consume ahead) :=
      Rules.next_of_read hfresh hread
    rw [hnext, ← consume_view m ahead (some ahead)]
    exact Rules.next_apply _ _

theorem atToken_view (hfresh : l.lookahead = none) :
    { l.atToken with lookahead := none } = l.atToken := by
  rw [atToken, ← hfresh]

theorem expected_of_read {ahead : Lookahead}
    (h : Rules.read interpolation l = .ok (some ahead) m) (hexpected : l.expected = none) :
    m.expected = none := by
  rw [Rules.read_apply] at h
  split at h
  · split at h
    · cases h
      exact hexpected
    · cases h
  · split at h
    · cases h
    · split at h
      · cases h
        rfl
      · cases h

/-- A token that is read and put back leaves the lexer where the token starts. -/
theorem unconsume_of_read {ahead : Lookahead} (hl : l.Settled)
    (h : Rules.read interpolation l = .ok (some ahead) m) :
    { m with lookahead := some ahead }.unconsume = l.atToken := by
  have hexpected := expected_of_read h hl.2
  obtain ⟨⟨_, wording, hm⟩, hstart, _⟩ := (Rules.ends_read interpolation l).of_ok h
  have hwording : wording = l.expected := by
    rw [hm] at hexpected
    exact hexpected.trans hl.2.symm
  show { m with cursor := ahead.start, lookahead := none } = _
  rw [hstart, hm, hwording, atToken, ← hl.1]

/-- Nothing is left to consume where white space and comments are all that is left. -/
theorem offer_eq_none_iff (hfresh : l.lookahead = none) :
    l.offer = .ok none ↔ l.pending = none ∧ l.tokenStart.atEnd = true := by
  unfold offer Lexer.next
  rw [Rules.next_apply, hfresh]
  constructor
  · intro h
    simp only at h
    split at h
    · cases h
    · next hread => exact ⟨(tokenStart_of_read_none hread).1, (tokenStart_of_read_none hread).2.1⟩
    · cases h
  · rintro ⟨hpending, hend⟩
    rw [tokenStart_of_pending_none hpending] at hend
    rw [Rules.read_apply, hpending]
    simp only [hend, if_true]
    rfl

/-- A lexer that gives no further token stands before the end of its text. -/
theorem end_of_next_none (hfresh : l.lookahead = none) (h : Lexer.next l = .ok none m) :
    l.pending = none ∧ l.tokenStart.atEnd = true := by
  apply (offer_eq_none_iff hfresh).mp
  rw [offer, h]
  rfl

/-! ### The calls that consume nothing -/

theorem Foreseen.peek (hl : l.Settled) (h : Foreseen l m) {t : Option Token}
    (hpeek : Lexer.peek m = .ok t n) : Foreseen l n ∧ l.offer = .ok t := by
  -- Without a token in view the lexer reads what the first one would have read.
  have hreads : m.lookahead = none → Rules.read interpolation m = Rules.read interpolation l →
      Foreseen l n ∧ l.offer = .ok t := by
    intro hview hsame
    have hnext : Lexer.next l = _ := Rules.next_apply interpolation l
    rw [hl.1] at hnext
    unfold Lexer.peek at hpeek
    rw [Rules.peek_apply, hview, hsame] at hpeek
    cases hread : Rules.read interpolation l with
    | error e k =>
      rw [hread] at hpeek
      cases hpeek
    | ok found k =>
      rw [hread] at hpeek hnext
      rw [offer, hnext]
      cases found with
      | none =>
        obtain ⟨-, -, rfl⟩ := tokenStart_of_read_none hread
        cases hpeek
        refine ⟨?_, rfl⟩
        rw [atToken_view hl.1]
        exact .skipped
      | some ahead =>
        cases hpeek
        exact ⟨.inView hread, rfl⟩
  cases h with
  | untouched => exact hreads hl.1 rfl
  | skipped => exact hreads hl.1 (read_atToken interpolation l)
  | @inView ahead m hread =>
    have hview : Lexer.peek { m with lookahead := some ahead } = .ok (some ahead.token) _ :=
      Rules.peek_apply _ _
    cases hview.symm.trans hpeek
    have hnext : Lexer.next l = .ok (some ahead.token) (m.consume ahead) :=
      Rules.next_of_read hl.1 hread
    refine ⟨.inView hread, ?_⟩
    rw [offer, hnext]
    rfl

theorem Foreseen.isDone (hl : l.Settled) (h : Foreseen l m) {done : Bool}
    (hdone : Lexer.isDone m = .ok done n) : Foreseen l n ∧ (done = true ↔ l.offer = .ok none) := by
  have hend : (l.pending.isNone && l.tokenStart.atEnd) = true ↔ l.offer = .ok none := by
    rw [offer_eq_none_iff hl.1, Bool.and_eq_true, Option.isNone_iff_eq_none]
  cases h with
  | untouched =>
    rw [isDone_of_fresh hl.1] at hdone
    cases hdone
    exact ⟨.skipped, hend⟩
  | skipped =>
    have hpending : l.atToken.pending = l.pending := rfl
    rw [isDone_of_fresh (l := l.atToken) hl.1, atToken_atToken, tokenStart_atToken,
      hpending] at hdone
    cases hdone
    exact ⟨.skipped, hend⟩
  | @inView ahead m hread =>
    have hnext : Lexer.next l = .ok (some ahead.token) (m.consume ahead) :=
      Rules.next_of_read hl.1 hread
    rw [isDone_apply, Option.isSome_some, Bool.true_or, if_pos rfl] at hdone
    cases hdone
    refine ⟨.inView hread, nofun, fun hnone => ?_⟩
    rw [offer, hnext] at hnone
    cases hnone

theorem Foreseen.unconsume (hl : l.Settled) (h : Foreseen l m) : Foreseen l m.unconsume := by
  cases h with
  | untouched =>
    rw [unconsume_of_lookahead hl.1]
    exact .untouched
  | skipped =>
    rw [unconsume_atToken hl.1]
    exact .skipped
  | inView hread =>
    rw [unconsume_of_read hl hread]
    exact .skipped

/-- **A call that consumes nothing is not seen**, and it says what will be consumed. -/
theorem Foreseen.exchange (hl : l.Settled) (h : Foreseen l m) {q : Query} (hq : q ≠ .next)
    {e : Exchange} (hexchange : q.exchange m = .ok e n) :
    Foreseen l n ∧ e.query = q ∧ e.Foretells l.offer := by
  obtain ⟨reply, k, hreply, hrest⟩ := exists_of_bind hexchange
  cases hrest
  cases q with
  | next => exact absurd rfl hq
  | peek =>
    obtain ⟨t, k, hpeek, hrest⟩ := exists_of_bind hreply
    cases hrest
    obtain ⟨hn, hoffer⟩ := h.peek hl hpeek
    exact ⟨hn, rfl, fun _ => ⟨t, rfl, hoffer⟩, nofun⟩
  | unconsume =>
    cases hreply
    exact ⟨h.unconsume hl, rfl, nofun, nofun⟩
  | isDone =>
    obtain ⟨done, k, hdone, hrest⟩ := exists_of_bind hreply
    cases hrest
    obtain ⟨hn, hoffer⟩ := h.isDone hl hdone
    refine ⟨hn, rfl, nofun, fun _ => ?_⟩
    rw [← hoffer]
    exact ⟨fun hreply => by cases hreply; rfl, fun hdone => by rw [hdone]⟩

/-! ### The calls that consume a token -/

theorem settled_of_next (hl : l.Settled) {t : Option Token} (h : next l = .ok t m) : m.Settled := by
  unfold next at h
  rw [Rules.next_apply, hl.1] at h
  simp only at h
  split at h
  · next ahead k hread =>
    have hk := expected_of_read hread hl.2
    cases h
    refine ⟨rfl, ?_⟩
    unfold consume
    cases ahead.opens <;> rw [note_frame] <;> exact hk
  · next k hread =>
    obtain ⟨-, -, rfl⟩ := tokenStart_of_read_none hread
    cases h
    exact hl
  · cases h

end Lexer

open Lexer (Settled Foreseen)

/-! ### Conversations -/

theorem upcoming_cons_of_ne {e : Exchange} (h : e.query ≠ .next)
    (last : Except SyntaxError (Option Token)) (es : List Exchange) :
    upcoming last (e :: es) = upcoming last es := by
  have hnone : e.consumed? = none := by
    unfold Exchange.consumed?
    split
    · exact absurd rfl h
    · rfl
  rw [upcoming, upcoming, List.findSome?_cons, hnone]

theorem converse_cons {q : Query} {queries : List Query} {l m : Lexer} {es : List Exchange}
    (h : converse (q :: queries) l = .ok es m) :
    ∃ e k others, q.exchange l = .ok e k ∧ converse queries k = .ok others m ∧
    es = e :: others := by
  obtain ⟨e, k, he, hrest⟩ := exists_of_bind h
  obtain ⟨others, _, hothers, hrest⟩ := exists_of_bind hrest
  cases hrest
  exact ⟨e, k, others, he, hothers, rfl⟩

theorem converse_of_cons {q : Query} {queries : List Query} {l k m : Lexer} {e : Exchange}
    {es : List Exchange} (he : q.exchange l = .ok e k) (h : converse queries k = .ok es m) :
    converse (q :: queries) l = .ok (e :: es) m := by
  rw [converse, bind_apply, he]
  simp only [bind_apply, h]
  rfl

/-- A call that consumes a token does the same with and without the calls before it. -/
theorem exchange_next {l m n : Lexer} (hl : l.Settled) (h : Foreseen l m) {e : Exchange}
    (he : Query.next.exchange m = .ok e n) :
    Query.next.exchange l = .ok e n ∧ n.Settled ∧ ∃ t, e = ⟨.next, .token t, n.sight⟩ ∧
    l.offer = .ok t := by
  obtain ⟨reply, k, hreply, hrest⟩ := exists_of_bind he
  cases hrest
  obtain ⟨t, k, hnext, hrest⟩ := exists_of_bind hreply
  cases hrest
  rw [h.next hl.1] at hnext
  refine ⟨?_, Lexer.settled_of_next hl hnext, t, rfl, ?_⟩
  · unfold Query.exchange Query.reply
    simp only [bind_apply, hnext]
    rfl
  · rw [Lexer.offer, hnext]
    rfl

/-- What is said of a conversation, from a lexer that was only looked at. -/
theorem converse_transparent (queries : List Query) {l m n : Lexer} (hl : l.Settled)
    (h : Foreseen l m) {es : List Exchange} (hes : converse queries m = .ok es n) :
    upcoming n.offer es = l.offer ∧
      (∃ k, converse (queries.filter (· = .next)) l = .ok (es.filter (·.query = .next)) k) ∧
      ∀ before e after, es = before ++ e :: after → e.Foretells (upcoming n.offer after) := by
  -- On the calls.  The lexer `l` stays at the last token while `m` is looked at.
  induction queries generalizing l m es with
  | nil =>
    cases hes
    refine ⟨?_, ⟨l, rfl⟩, fun before e after hsplit => ?_⟩
    · show n.offer = l.offer
      rw [Lexer.offer, h.next hl.1, Lexer.offer]
    · simp at hsplit
  | cons q queries ih =>
    obtain ⟨e, k, others, he, hothers, rfl⟩ := converse_cons hes
    by_cases hq : q = .next
    · subst hq
      obtain ⟨hsame, hk, t, rfl, hoffer⟩ := exchange_next hl h he
      obtain ⟨-, ⟨k', hfilter⟩, hforetell⟩ := ih hk .untouched hothers
      refine ⟨hoffer.symm, ⟨k', converse_of_cons hsame hfilter⟩, fun before e after hsplit => ?_⟩
      cases before with
      | nil =>
        cases hsplit
        constructor <;> rintro ⟨⟩
      | cons b before =>
        obtain ⟨-, hrest⟩ := List.cons.inj hsplit
        exact hforetell before e after hrest
    · obtain ⟨hk, hquery, hforetells⟩ := h.exchange hl hq he
      obtain ⟨hoffer, ⟨k', hfilter⟩, hforetell⟩ := ih hl hk hothers
      refine ⟨?_, ⟨k', ?_⟩, fun before e' after hsplit => ?_⟩
      · rw [upcoming_cons_of_ne (by rwa [hquery])]
        exact hoffer
      · rw [List.filter_cons_of_neg (by simpa using hq),
          List.filter_cons_of_neg (by simp [hquery, hq])]
        exact hfilter
      · cases before with
        | nil =>
          cases hsplit
          rw [hoffer]
          exact hforetells
        | cons b before =>
          obtain ⟨-, hrest⟩ := List.cons.inj hsplit
          exact hforetell before e' after hrest

/-- **Lookahead is transparent.**  Take any calls of a fresh lexer none of which fails.  Without the
calls that consume nothing, the others give the same tokens, and the lexer shows the same behind
each of them.  Every look ahead gives what the next token turns out to be, and the lexer is done
exactly if there is none. -/
theorem lookahead_transparent {c : Cursor} {options : Options} {queries : List Query}
    {es : List Exchange} {m : Lexer}
    (h : converse queries (.ofCursor c options) = .ok es m) :
    (∃ k, converse (queries.filter (· = .next)) (.ofCursor c options) =
        .ok (es.filter (·.query = .next)) k) ∧
      ∀ before e after, es = before ++ e :: after → e.Foretells (upcoming m.offer after) :=
  (converse_transparent queries ⟨rfl, rfl⟩ .untouched h).2

theorem lookahead_transparent_string :
    ∃ es m, converse
        [.isDone, .peek, .unconsume, .next, .peek, .next, .next, .peek, .next, .isDone,
          .peek, .unconsume, .isDone, .next, .peek, .next, .isDone, .peek, .next, .isDone, .next]
        (.ofText "\"a#\x7b$b\x7dc\" /* d */ calc(#\x7b!e\x7d)".toList 1 0 {}) = .ok es m ∧
      es.length = 21 ∧
      (∃ k, converse [.next, .next, .next, .next, .next, .next, .next, .next]
          (.ofText "\"a#\x7b$b\x7dc\" /* d */ calc(#\x7b!e\x7d)".toList 1 0 {}) =
        .ok (es.filter (·.query = .next)) k) ∧
      ∀ before e after, es = before ++ e :: after → e.Foretells (upcoming m.offer after) := by
  obtain ⟨es, m, hes, hlength⟩ := exists_of_answers
    (r := converse
        [.isDone, .peek, .unconsume, .next, .peek, .next, .next, .peek, .next, .isDone,
          .peek, .unconsume, .isDone, .next, .peek, .next, .isDone, .peek, .next, .isDone, .next]
        (.ofText "\"a#\x7b$b\x7dc\" /* d */ calc(#\x7b!e\x7d)".toList 1 0 {}))
    (p := fun es _ => decide (es.length = 21)) (by decide +kernel)
  exact ⟨es, m, hes, of_decide_eq_true hlength, lookahead_transparent hes⟩

end Stylesheet
