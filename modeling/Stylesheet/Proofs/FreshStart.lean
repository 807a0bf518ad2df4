import Stylesheet.Proofs.Excerpt
import Stylesheet.Proofs.Replica

/-!
# Lexers that start in the middle of a text

A lexer that has nothing open, no token in view and no wording of an error pending cannot be told
from one that starts right there on the text that is left (`replies_of_fresh`).  It still remembers
the token consumed last, how many interpolations there were and the warnings so far, but nothing it
is asked from then on depends on them (`Leftover`).  What is left is a change of places: the byte
offsets of the lexer in the middle of the text are further on by the offset of its place
(`Replica.onward`).
-/
namespace Stylesheet
namespace Lexer

/-! ### What a lexer gives back -/

/-- What a call gives back. The warnings are not among it, for a lexer shows them at any time. -/
inductive Answer
  | token (token : Option Token)
  | tokens (tokens : List Token)
  | done (done : Bool)
  | nothing

/-- The same answer with all places in it moved, those inside of special functions included. -/
def Answer.relocate (move : Location → Location) : Answer → Answer
  | token t => token (t.map (Token.relocate move))
  | tokens ts => tokens (ts.map (Token.relocate move))
  | done b => done b
  | nothing => nothing

namespace Call

/-- A call as a program. -/
def reply : Call → LexM Answer
  | next => .token <$> Lexer.next
  | peek => .token <$> Lexer.peek
  | isDone => .done <$> Lexer.isDone
  | unconsume => (fun _ => .nothing) <$> modify Lexer.unconsume
  | all => .tokens <$> Lexer.all
  | interpolation => .tokens <$> Lexer.interpolation
  | takeWarnings => (fun _ => .nothing) <$> modify fun l => l.takeWarnings.2
  | expect description => (fun _ => .nothing) <$> modify fun l => l.expect description
  | collectUntil _ go b => .tokens <$> Lexer.collectUntil go b

/-- A call whose conditions on tokens see them where they are moved to. -/
def relocate (move : Location → Location) : Call → Call
  | collectUntil β go b => collectUntil β (fun b t => go b (t.relocate move)) b
  | call => call

/-- Whether a call takes the warnings away. -/
def takes : Call → Bool
  | takeWarnings => true
  | _ => false

theorem stateOf_map {α : Type} (f : α → Answer) (p : LexM α) (l : Lexer) :
    stateOf ((f <$> p) l) = stateOf (p l) := by
  rw [map_apply]
  cases p l <;> rfl

/-- A program of a call leaves the lexer as the call does. -/
theorem stateOf_reply (call : Call) (l : Lexer) : stateOf (call.reply l) = call.run l := by
  cases call <;> exact stateOf_map _ _ l

end Call

/-! ### What is left of the text before -/

/-- The second lexer is where the first one is, but it has been there for some time: it remembers
other tokens, and it gave warnings before. -/
structure Leftover (old : List Deprecation) (l m : Lexer) : Prop where
  cursor : m.cursor = l.cursor
  options : m.options = l.options
  lookahead : m.lookahead = l.lookahead
  pending : m.pending = l.pending
  interpolations : m.interpolations = l.interpolations
  openSegment : m.openSegment = l.openSegment
  expected : m.expected = l.expected
  warnings : m.warnings = old ++ l.warnings

namespace Leftover

variable {old : List Deprecation} {l m : Lexer} (h : Leftover old l m)
include h

theorem depth : m.depth = l.depth := by
  rw [Lexer.depth, h.interpolations, Lexer.depth]

theorem front : m.front = l.front := by
  rw [Lexer.front, h.lookahead, h.cursor, Lexer.front]

theorem size : m.size = l.size := by
  rw [Lexer.size, h.front, h.pending, Lexer.size]

theorem failure : m.failure = l.failure := by
  rw [Lexer.failure, h.cursor, h.expected, Lexer.failure]

theorem move (c : Cursor) (wording : Option String) (view : Option Lookahead) :
    Leftover old { l with cursor := c, expected := wording, lookahead := view }
      { m with cursor := c, expected := wording, lookahead := view } :=
  { h with cursor := rfl, expected := rfl, lookahead := rfl }

theorem skipTrivia : Leftover old l.skipTrivia m.skipTrivia := by
  unfold Lexer.skipTrivia
  rw [h.cursor]
  exact { h with cursor := rfl }

theorem unconsume : Leftover old l.unconsume m.unconsume :=
  { h with cursor := h.front, lookahead := rfl }

theorem warnings_note (t : Token) : (m.note t).warnings = old ++ (l.note t).warnings := by
  have hadd : ∀ d : Deprecation, m.warnings ++ [d] = old ++ (l.warnings ++ [d]) := by
    intro d
    rw [h.warnings, List.append_assoc]
  unfold Lexer.note Lexer.pop Lexer.warn
  dsimp only
  rw [h.openSegment, h.interpolations, h.options]
  split
  · split <;> exact h.warnings
  · split <;> exact h.warnings
  · split
    · exact h.warnings
    · exact hadd _
  · exact h.warnings

/-- A token that is consumed makes up for all that was different. -/
theorem consume (ahead : Lookahead) : Leftover old (l.consume ahead) (m.consume ahead) := by
  obtain ⟨hinterpolations, hsegment, hresume⟩ :=
    note_congr (Eq.refl ahead.token.kind) h.interpolations h.openSegment
  have hcursor : (m.note ahead.token).cursor = (l.note ahead.token).cursor := by
    rw [cursor_note, cursor_note, h.cursor]
  have hoptions : (m.note ahead.token).options = (l.note ahead.token).options := by
    rw [options_note, options_note, h.options]
  have hexpected : (m.note ahead.token).expected = (l.note ahead.token).expected := by
    rw [note_frame, note_frame l]
    exact h.expected
  have hwarnings : (m.note ahead.token).warnings ++ ahead.warnings =
      old ++ ((l.note ahead.token).warnings ++ ahead.warnings) := by
    rw [h.warnings_note, List.append_assoc]
  -- Whether a string goes on depends on the token consumed last and on what it closed.
  have hpending :
      (if ahead.token.isOp .closeInterpolation then (m.note ahead.token).resume else none) =
      if ahead.token.isOp .closeInterpolation then (l.note ahead.token).resume else none := by
    rw [hresume]
  unfold Lexer.consume
  cases ahead.opens with
  | none =>
    exact ⟨hcursor, hoptions, rfl, hpending, hinterpolations, hsegment, hexpected, hwarnings⟩
  | some q =>
    exact ⟨hcursor, hoptions, rfl, hpending, congrArg (some q :: ·) hinterpolations, rfl, hexpected,
      hwarnings⟩

end Leftover

section
variable {old : List Deprecation}

theorem size_of_leftover (l m : Lexer) (h : Leftover old l m) : m.size = l.size :=
  h.size

variable (p : LexM (List Token))

theorem simulates_token_leftover :
    Simulates (Leftover old) Eq Eq (Rules.token p) (Rules.token p) := by
  intro l m h
  rw [Rules.token_apply, Rules.token_apply, h.depth, h.cursor, h.failure]
  cases Lexeme.at? (0 < l.depth) l.cursor.rest with
  | some x => exact .ok rfl { h with cursor := rfl }
  | none =>
    cases Recognizer.specialHead l.cursor.rest with
    | none => exact .error rfl h
    | some head =>
      simp only [Rules.special_apply, h.cursor, h.options]
      cases (l.cursor.advance head).rest.balancedLength? with
      | none => exact .error rfl { h with cursor := rfl, options := rfl }
      | some n =>
        simp only
        -- The body is read by a lexer of its own, which is the same one for both.
        cases Rules.pieces p ((l.cursor.advance head).advance n)
          (.ofCursor (l.cursor.advance head) l.options) with
        | ok parts inner => exact .ok rfl { h with cursor := rfl, options := rfl }
        | error e inner => exact .error rfl { h with cursor := rfl, options := rfl }

theorem simulates_read_leftover : Simulates (Leftover old) Eq Eq (Rules.read p) (Rules.read p) := by
  intro l m h
  have hskip := h.skipTrivia
  rw [Rules.read_apply, Rules.read_apply, h.pending, h.cursor, h.failure, hskip.cursor]
  cases l.pending with
  | some q =>
    simp only
    cases Lexeme.segment? q l.cursor.rest with
    | some x => exact .ok rfl { h with cursor := rfl }
    | none => exact .error rfl h
  | none =>
    simp only
    cases l.skipTrivia.cursor.atEnd with
    | true => exact .ok rfl hskip
    | false =>
      have hrun := simulates_token_leftover p _ _ hskip
      simp only [Bool.false_eq_true, if_false]
      generalize Rules.token p l.skipTrivia = r, Rules.token p m.skipTrivia = r' at hrun ⊢
      cases hrun with
      | error errors states => exact .error errors states
      | ok answers states => exact .ok (congrArg some answers) { states with expected := rfl }

theorem simulates_peek_leftover : Simulates (Leftover old) Eq Eq (Rules.peek p) (Rules.peek p) := by
  intro l m h
  have hread := simulates_read_leftover p l m h
  rw [Rules.peek_apply, Rules.peek_apply, h.lookahead]
  cases l.lookahead with
  | some ahead => exact .ok rfl h
  | none =>
    simp only
    generalize Rules.read p l = r, Rules.read p m = r' at hread ⊢
    cases hread with
    | error errors states => exact .error errors states
    | ok answers states =>
      subst answers
      exact .ok rfl { states with lookahead := rfl }

theorem simulates_next_leftover : Simulates (Leftover old) Eq Eq (Rules.next p) (Rules.next p) := by
  intro l m h
  have hpeek := simulates_peek_leftover p l m h
  rw [Rules.next_eq, Rules.next_eq]
  generalize Rules.peek p l = r, Rules.peek p m = r' at hpeek ⊢
  cases hpeek with
  | error errors states => exact .error errors states
  | @ok t u l' m' answers states =>
    simp only [states.lookahead]
    cases l'.lookahead with
    | none => exact .ok rfl states
    | some ahead => exact .ok rfl (states.consume ahead)

theorem simulates_isDone_leftover : Simulates (Leftover old) Eq Eq isDone isDone := by
  intro l m h
  rw [isDone_apply, isDone_apply, h.lookahead, h.pending, h.skipTrivia.cursor]
  split
  · exact .ok rfl h
  · exact .ok rfl h.skipTrivia

/-- A loop that collects what its rounds find. -/
theorem simulates_loop_leftover {β : Type} {step : β → LexM (List Token × Option β)}
    (h : ∀ b, Simulates (Leftover old) Eq Eq (step b) (step b)) (b : β) :
    Simulates (Leftover old) Eq Eq (unfold size step b) (unfold size step b) := by
  have hrounds :
      ∀ b, Simulates (Leftover old) (fun r r' => r' = (r.1.map id, r.2)) Eq (step b) (step b) := by
    intro b l m hl
    have hround := h b l m hl
    generalize step b l = r, step b m = r' at hround ⊢
    cases hround with
    | error errors states => exact .error errors states
    | @ok r _ _ _ answers states => exact .ok (by rw [← answers, List.map_id]) states
  intro l m hl
  have hrun := simulates_unfold size_of_leftover hrounds b l m hl
  generalize unfold size step b l = r, unfold size step b m = r' at hrun ⊢
  cases hrun with
  | error errors states => exact .error errors states
  | ok answers states => exact .ok (by rw [answers, List.map_id]) states

theorem simulates_collectUntil_leftover {β : Type} (go : β → Token → Option β) (b : β) :
    Simulates (Leftover old) Eq Eq (Rules.collectUntil p go b) (Rules.collectUntil p go b) := by
  refine simulates_after (simulates_loop_leftover (fun b => ?_) b) fun tokens => ?_
  · refine simulates_after simulates_isDone_leftover fun done => ?_
    refine simulates_ite Iff.rfl (simulates_pure rfl) ?_
    refine simulates_after (simulates_peek_leftover p) fun t => ?_
    cases t with
    | none => exact simulates_pure rfl
    | some t =>
      simp only
      cases go b t with
      | none => exact simulates_pure rfl
      | some b' => exact simulates_after (simulates_next_leftover p) fun t => simulates_pure rfl
  · refine simulates_after (simulates_modify fun _ _ h => h.unconsume) fun _ => ?_
    exact simulates_pure rfl

theorem simulates_interpolation_leftover :
    Simulates (Leftover old) Eq Eq interpolation interpolation := by
  rw [interpolation_eq]
  refine simulates_after (simulates_collectUntil_leftover _ _ _) fun tokens => ?_
  refine simulates_get_bind fun l m h => ?_
  -- An empty interpolation is an error for both or for neither.
  have hafter : ∀ {rest rest' : LexM (List Token)}, Simulates (Leftover old) Eq Eq rest rest' →
      Simulates (Leftover old) Eq Eq
        (if tokens.isEmpty then throw (l.cursor.unexpected "expression") >>= fun _ : PUnit =>
          rest else rest)
        (if tokens.isEmpty then throw (l.cursor.unexpected "expression") >>= fun _ : PUnit => rest'
          else rest') :=
    fun hrest => simulates_ite Iff.rfl (simulates_after (simulates_throw rfl) fun _ => hrest) hrest
  rw [h.cursor]
  refine hafter ?_
  cases l.cursor.pass? (Recognizer.literal ['}']) with
  | none => exact simulates_throw rfl
  | some c =>
    exact simulates_after (simulates_modify fun _ _ h => { h with cursor := rfl }) fun _ =>
      simulates_pure rfl

theorem simulates_all_leftover : Simulates (Leftover old) Eq Eq all all := by
  refine simulates_loop_leftover (fun _ => ?_) ()
  refine simulates_after (simulates_next_leftover _) fun t => ?_
  cases t <;> exact simulates_pure rfl

end

/-! ### Calls -/

/-- The second lexer is where the first one is in another text, and has been there for some time. -/
def Resumes (R : Replica) (old : List Deprecation) (l m : Lexer) : Prop :=
  ∃ k, R.SameLexer l k ∧ Leftover old k m

section
variable {R : Replica} {old : List Deprecation}

/-- What runs alike in two texts, and what runs alike whatever went before. -/
theorem simulates_resumes {α β : Type} {answer : α → β → Prop} {p : LexM α} {q : LexM β}
    (h : Simulates R.SameLexer answer R.error p q) (h' : Simulates (Leftover old) Eq Eq q q) :
    Simulates (Resumes R old) answer R.error p q := by
  rintro l m ⟨k, hk, hm⟩
  have hfirst := h l k hk
  have hsecond := h' k m hm
  generalize p l = r, q k = r', q m = r'' at hfirst hsecond ⊢
  cases hfirst with
  | ok answers states =>
    cases hsecond with
    | ok same states' => exact .ok (same ▸ answers) ⟨_, states, states'⟩
  | error errors states =>
    cases hsecond with
    | error same states' => exact .error (same ▸ errors) ⟨_, states, states'⟩

/-- The answers of a call that are alike. -/
theorem simulates_answer {α β : Type} {answer : α → β → Prop} {p : LexM α} {q : LexM β}
    {f : α → Answer} {g : β → Answer} (h : Simulates (Resumes R old) answer R.error p q)
    (hanswer : ∀ a b, answer a b → g b = (f a).relocate R.move) :
    Simulates (Resumes R old) (fun a b => b = a.relocate R.move) R.error (f <$> p) (g <$> q) :=
  simulates_bind h fun a b hab => simulates_pure (hanswer a b hab)

/-- What is left of earlier warnings behind a call. -/
def Call.left (old : List Deprecation) (call : Call) : List Deprecation :=
  if call.takes then [] else old

/-- **What is asked of the one lexer, the other one answers elsewhere.** -/
theorem matched_reply (call : Call) {l m : Lexer} (h : Resumes R old l m) :
    Matched (Resumes R (call.left old)) (fun a b => b = a.relocate R.move) R.error
      ((call.relocate R.move).reply l) (call.reply m) := by
  have hmodify : ∀ {f : Lexer → Lexer}, (∀ l k, R.SameLexer l k → R.SameLexer (f l) (f k)) →
      (∀ l k, Leftover old l k → Leftover old (f l) (f k)) →
      Simulates (Resumes R old) (fun a b => b = a.relocate R.move) R.error
        ((fun _ => Answer.nothing) <$> modify f) ((fun _ => Answer.nothing) <$> modify f) :=
    fun hsame hleft => simulates_answer
      (simulates_resumes (simulates_modify hsame) (simulates_modify hleft)) fun _ _ _ => rfl
  cases call with
  | next =>
    exact simulates_answer
      (simulates_resumes (Replica.simulates_next Replica.simulates_interpolation)
      (simulates_next_leftover _)) (fun t u htoken => by rw [htoken]; rfl) l m h
  | peek =>
    exact simulates_answer
      (simulates_resumes (Replica.simulates_peek Replica.simulates_interpolation)
      (simulates_peek_leftover _)) (fun t u htoken => by rw [htoken]; rfl) l m h
  | isDone =>
    exact simulates_answer (simulates_resumes Replica.simulates_isDone simulates_isDone_leftover)
      (fun b b' hdone => by rw [hdone]; rfl) l m h
  | unconsume => exact hmodify (fun _ _ h => h.unconsume) (fun _ _ h => h.unconsume) l m h
  | all =>
    exact simulates_answer (simulates_resumes Replica.simulates_all simulates_all_leftover)
      (fun ts us htokens => congrArg Answer.tokens htokens) l m h
  | interpolation =>
    exact simulates_answer (simulates_resumes Replica.simulates_interpolation
      simulates_interpolation_leftover) (fun ts us htokens => congrArg Answer.tokens htokens) l m h
  | takeWarnings =>
    obtain ⟨k, hk, hm⟩ := h
    exact .ok rfl ⟨{ k with warnings := [] }, { hk with warnings := rfl },
      { hm with warnings := rfl }⟩
  | expect description =>
    exact hmodify (f := (·.expect description)) (fun _ _ h => { h with expected := rfl })
      (fun _ _ h => { h with expected := rfl }) l m h
  | collectUntil β go b =>
    exact simulates_answer (simulates_resumes (Replica.simulates_collectUntil
      Replica.simulates_interpolation (fun _ _ => rfl) b) (simulates_collectUntil_leftover _ go b))
      (fun ts us htokens => congrArg Answer.tokens htokens) l m h

theorem Resumes.run {l m : Lexer} (h : Resumes R old l m) (call : Call) :
    Resumes R (call.left old) ((call.relocate R.move).run l) (call.run m) := by
  have hreply := matched_reply call h
  rw [← Call.stateOf_reply, ← Call.stateOf_reply]
  generalize (call.relocate R.move).reply l = r, call.reply m = r' at hreply ⊢
  cases hreply with
  | ok _ states => exact states
  | error _ states => exact states

/-- What one call keeps, any number of calls keep. -/
theorem Resumes.after {l m : Lexer} (h : Resumes R old l m) (calls : List Call) :
    Resumes R (calls.foldl Call.left old) (l.after (calls.map (Call.relocate R.move)))
      (m.after calls) := by
  induction calls generalizing old l m with
  | nil => exact h
  | cons call calls ih => exact ih (h.run call)

end

/-! ### A lexer that starts on the text that is left -/

/-- A lexer with nothing open does not stand before the opening of an interpolation that cut a
string short. -/
theorem openSegment_of_depth {c : Cursor} {options : Options} {calls : List Call} {l : Lexer}
    (hl : (ofCursor c options).after calls = l) (hdepth : l.depth = 0) : l.openSegment = false := by
  obtain ⟨ts, hrun⟩ := run_after (show (ofCursor c options).lookahead = none from rfl) calls
  have htracks := (hl ▸ hrun).tracks
  have hle := htracks.nested ts (List.prefix_refl ts)
  have hcount := htracks.depth
  by_contra hcut
  rw [if_pos (Bool.of_not_eq_false hcut)] at hcount
  omega

theorem resumes_fresh {l : Lexer} (hview : l.lookahead = none) (hdepth : l.depth = 0)
    (hpending : l.pending = none) (hexpected : l.expected = none)
    (hsegment : l.openSegment = false) :
    ∃ R : Replica, R.move = Location.moved l.cursor.offset ∧ R.lines = 0 ∧
    R.error = SyntaxError.Echoes 0 ∧
      Resumes R l.warnings
        (.ofText l.cursor.rest l.cursor.line l.cursor.location.column l.options) l := by
  generalize ho : Cursor.start l.cursor.rest l.cursor.line l.cursor.location.column = o
  have hrest : l.cursor.rest = o.rest := by rw [← ho]; rfl
  have hlocation : l.cursor.location = o.location.moved l.cursor.offset := by
    rw [← ho]
    show _ = Location.mk _ _ (0 + l.cursor.offset)
    rw [Nat.zero_add]
    rfl
  have hplaces :
      ∀ n, (l.cursor.advance n).location = (o.advance n).location.moved l.cursor.offset := by
    intro n
    rw [Cursor.location_advance, Cursor.location_advance, hrest, hlocation, Location.after_moved]
  let R : Replica := .onward hrest (Location.moved l.cursor.offset) 0 l.cursor.offset (fun _ => rfl)
    (fun _ => rfl) hplaces none (Replica.lt_offset_of_mem_none l.cursor) []
  have hplace : R.place o l.cursor :=
    ⟨0, (Cursor.advance_zero _).symm, (Cursor.advance_zero _).symm⟩
  refine ⟨R, rfl, rfl, rfl, .ofCursor l.cursor l.options, ?_, ?_⟩
  · rw [ofText, ho]
    exact Replica.sameLexer_ofCursor hplace rfl
  · exact ⟨rfl, rfl, hview, hpending, List.length_eq_zero_iff.mp hdepth, hsegment, hexpected,
      (List.append_nil _).symm⟩

/-- **What a lexer does next does not depend on the text before it.**  Where calls have led a lexer
to with nothing open, nothing in view and nothing pending, it answers whatever is asked of it as a
lexer does that starts there on the text that is left, with all byte offsets further on by that of
the place. The warnings it adds are the same, and so are the errors with their lines, but for the
text that stands before them. -/
theorem replies_of_fresh {c : Cursor} {options : Options} {before : List Call} {l : Lexer}
    (hl : (ofCursor c options).after before = l) (hview : l.lookahead = none) (hdepth : l.depth = 0)
    (hpending : l.pending = none) (hexpected : l.expected = none) (calls : List Call)
    (call : Call) :
    let move := Location.moved l.cursor.offset
    let fresh := ofText l.cursor.rest l.cursor.line l.cursor.location.column options
    Matched
      (fun k m => m.warnings = (calls ++ [call]).foldl Call.left l.warnings ++ k.warnings)
      (fun a b => b = a.relocate move) (SyntaxError.Echoes 0)
      ((call.relocate move).reply (fresh.after (calls.map (Call.relocate move))))
      (call.reply (l.after calls)) := by
  have hoptions : l.options = options := by
    obtain ⟨ts, hrun⟩ := run_after (show (ofCursor c options).lookahead = none from rfl) before
    exact ((hl ▸ hrun).sound rfl).options
  obtain ⟨R, hmove, hlines, herror, hstart⟩ :=
    resumes_fresh hview hdepth hpending hexpected (openSegment_of_depth hl hdepth)
  have hreply := matched_reply call (hstart.after calls)
  rw [hoptions] at hreply
  simp only [← hmove, ← herror]
  rw [List.foldl_append]
  generalize (call.relocate R.move).reply _ = r, call.reply (l.after calls) = r' at hreply ⊢
  have hwarnings : ∀ {k m : Lexer} {old : List Deprecation}, Resumes R old k m →
      m.warnings = old ++ k.warnings := by
    rintro k m old ⟨k', hk, hm⟩
    rw [hm.warnings, hk.warnings, hlines]
    exact congrArg (old ++ ·) (List.map_id _)
  cases hreply with
  | ok answers states => exact .ok answers (hwarnings states)
  | error errors states => exact .error errors (hwarnings states)

/-- Behind an interpolation that was closed, with a token in view before the last call. -/
theorem replies_of_fresh_closed :
    let l :=
      (ofText "a #\x7bb\x7d calc(#\x7b!c\x7d)".toList 1 0 {}).after [.next, .next, .next, .next]
    l.lookahead = none ∧ l.depth = 0 ∧ l.pending = none ∧ l.expected = none ∧
      Matched
        (fun k m => m.warnings = [Call.peek, .next].foldl Call.left l.warnings ++ k.warnings)
        (fun a b => b = a.relocate (Location.moved l.cursor.offset)) (SyntaxError.Echoes 0)
        (Call.next.reply
          ((ofText l.cursor.rest l.cursor.line l.cursor.location.column {}).after [.peek]))
        (Call.next.reply (l.after [.peek])) := by
  have hidle :
      let l :=
        (ofText "a #\x7bb\x7d calc(#\x7b!c\x7d)".toList 1 0 {}).after [.next, .next, .next, .next]
      l.lookahead.isNone = true ∧ l.depth = 0 ∧ l.pending = none ∧ l.expected = none := by
    decide +kernel
  obtain ⟨hview, hdepth, hpending, hexpected⟩ := hidle
  replace hview := Option.isNone_iff_eq_none.mp hview
  have hcalls :
      (ofCursor (.start "a #\x7bb\x7d calc(#\x7b!c\x7d)".toList 1 0) {}).after
      [.next, .next, .next, .next] =
        (ofText "a #\x7bb\x7d calc(#\x7b!c\x7d)".toList 1 0 {}).after
        [.next, .next, .next, .next] := rfl
  exact ⟨hview, hdepth, hpending, hexpected,
    replies_of_fresh hcalls hview hdepth hpending hexpected [.peek] .next⟩

end Lexer
end Stylesheet
