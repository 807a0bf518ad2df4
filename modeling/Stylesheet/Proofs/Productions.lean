import Stylesheet.Grammar.Declaration
import Stylesheet.Grammar.Directive
import Stylesheet.Grammar.Statement
import Stylesheet.Proofs.Interpolation

/-!
# Productions that read no blocks

Most productions read a part of the text and know nothing of blocks.  They move the cursor, but
never to before the place they started from; they keep the options; and they neither look at nor
change the end of the last block, the statements read again so far and the way to give something up.
`Plain` says all of that of a production, relative to a place that it never goes behind.  It is
passed on by every way to put productions together, and so it holds of names, selectors, expressions
and of every statement without a block.
-/
namespace Stylesheet
namespace Grammar

variable {ε α β : Type}

/-- The state with other values of the fields that only blocks and attempts use. -/
def State.reframe (s : State) (blockEnd : Option Nat) (backtracks : List Nat)
    (rollback : Rollback) : State :=
  { s with blockEnd, backtracks, rollback }

/-- A state ahead of a place, with the options of an earlier one. -/
structure Kept (c : Cursor) (s t : State) : Prop where
  ahead : c.Before t.cursor
  options : t.options = s.options

/-- A production runs from a state without going behind a place, changing the options or using the
fields of blocks and attempts. -/
def PlainAt (c : Cursor) (p : EStateM ε State α) (s : State) : Prop :=
  Ends p s
    (fun a t => Kept c s t ∧ ∀ b k r, p (s.reframe b k r) = .ok a (t.reframe b k r))
    (fun e t => Kept c s t ∧ ∀ b k r, p (s.reframe b k r) = .error e (t.reframe b k r))

/-- A production that reads no blocks, from wherever it starts ahead of a place. -/
def Plain (c : Cursor) (p : EStateM ε State α) : Prop :=
  ∀ s, c.Before s.cursor → PlainAt c p s

variable {c : Cursor} {s t : State}

theorem Kept.trans {u : State} (h : Kept c s t) (h' : Kept c t u) : Kept c s u :=
  ⟨h'.ahead, h'.options.trans h.options⟩

/-- What is not used is not changed. -/
theorem PlainAt.same_of_ok {p : EStateM ε State α} (h : PlainAt c p s) {a : α}
    (hrun : p s = .ok a t) :
    t.blockEnd = s.blockEnd ∧ t.backtracks = s.backtracks ∧ t.rollback = s.rollback := by
  have hframe := (h.of_ok hrun).2 s.blockEnd s.backtracks s.rollback
  have hsame := EStateM.Result.ok.inj (hrun.symm.trans hframe)
  rw [hsame.2]
  exact ⟨rfl, rfl, rfl⟩

/-- A failure does not change it either. -/
theorem PlainAt.same_of_error {p : EStateM ε State α} (h : PlainAt c p s) {e : ε}
    (hrun : p s = .error e t) :
    t.blockEnd = s.blockEnd ∧ t.backtracks = s.backtracks ∧ t.rollback = s.rollback := by
  have hframe := (h.of_error hrun).2 s.blockEnd s.backtracks s.rollback
  have hsame := EStateM.Result.error.inj (hrun.symm.trans hframe)
  rw [hsame.2]
  exact ⟨rfl, rfl, rfl⟩

/-! ### Putting productions together -/

theorem plain_pure (a : α) : Plain c (pure a : EStateM ε State α) :=
  fun _ hs => ⟨⟨hs, rfl⟩, fun _ _ _ => rfl⟩

theorem plain_throw (e : ε) : Plain c (throw e : EStateM ε State α) :=
  fun _ hs => ⟨⟨hs, rfl⟩, fun _ _ _ => rfl⟩

/-- A production may go back as far as to the place that it never goes behind. -/
theorem plain_moveTo {d : Cursor} (h : c.Before d) : Plain c (moveTo d) :=
  fun _ _ => ⟨⟨h, rfl⟩, fun _ _ _ => rfl⟩

/-- Wherever the first production ends, the second one starts ahead of the place too. -/
theorem plain_bind {p : EStateM ε State α} {f : α → EStateM ε State β} (hp : Plain c p)
    (hf : ∀ a, Plain c (f a)) : Plain c (p >>= f) := by
  intro s hs
  have hfirst := hp s hs
  unfold PlainAt Ends at hfirst ⊢
  simp only [bind_apply]
  cases hrun : p s with
  | error e t =>
    rw [hrun] at hfirst
    obtain ⟨hkept, hframe⟩ := hfirst
    exact ⟨hkept, fun b k r => by rw [hframe]⟩
  | ok a t =>
    rw [hrun] at hfirst
    obtain ⟨hkept, hframe⟩ := hfirst
    simp only [hframe]
    exact (hf a t hkept.ahead).mono (fun _ _ h => ⟨hkept.trans h.1, h.2⟩)
      (fun _ _ h => ⟨hkept.trans h.1, h.2⟩)

theorem plain_map {f : α → β} {p : EStateM ε State α} (h : Plain c p) : Plain c (f <$> p) :=
  plain_bind h fun a => plain_pure (f a)

/-- What follows at the place where it starts may go back to there. -/
theorem plain_here_bind {f : Cursor → Production β} (h : ∀ d, c.Before d → Plain c (f d)) :
    Plain c (here >>= f) :=
  fun s hs => h s.cursor hs s hs

theorem plain_ite {P : Prop} [Decidable P] {p q : EStateM ε State α} (hp : Plain c p)
    (hq : Plain c q) : Plain c (if P then p else q) := by
  split
  · exact hp
  · exact hq

theorem plain_orM {p q : Production Bool} (hp : Plain c p) (hq : Plain c q) :
    Plain c (p <||> q) := by
  refine plain_bind hp fun a => ?_
  cases a with
  | true => exact plain_pure true
  | false => exact hq

theorem plain_andM {p q : Production Bool} (hp : Plain c p) (hq : Plain c q) :
    Plain c (p <&&> q) := by
  refine plain_bind hp fun a => ?_
  cases a with
  | true => exact hq
  | false => exact plain_pure false

/-- The second production goes on where the first one fails. -/
theorem orElse_apply (p q : Production α) (s : State) :
    (p <|> q) s = match p s with
      | .error _ t => q t
      | .ok a t => .ok a t := by
  show EStateM.orElse p (fun _ => q) s = _
  unfold EStateM.orElse
  cases p s <;> rfl

/-- The second production goes on where the first one failed, and that is ahead of the place as
well. -/
theorem plain_orElse {p q : Production α} (hp : Plain c p) (hq : Plain c q) :
    Plain c (p <|> q) := by
  intro s hs
  have hfirst := hp s hs
  unfold PlainAt Ends at hfirst ⊢
  simp only [orElse_apply]
  cases hrun : p s with
  | error e t =>
    rw [hrun] at hfirst
    obtain ⟨hkept, hframe⟩ := hfirst
    simp only [hframe]
    exact (hq t hkept.ahead).mono (fun _ _ h => ⟨hkept.trans h.1, h.2⟩)
      (fun _ _ h => ⟨hkept.trans h.1, h.2⟩)
  | ok a t =>
    rw [hrun] at hfirst
    obtain ⟨hkept, hframe⟩ := hfirst
    exact ⟨hkept, fun b k r => by rw [hframe]⟩

/-- A loop over rounds that read no blocks. -/
theorem plain_unfold {step : β → EStateM ε State (List α × Option β)}
    (h : ∀ b, Plain c (step b)) (b : β) : Plain c (unfold State.size step b) := by
  intro s hs
  induction hn : s.size using Nat.strongRecOn generalizing b s with
  | ind n ih =>
    have hfirst := h b s hs
    unfold PlainAt Ends at hfirst ⊢
    simp only [unfold_apply State.size step b]
    cases hrun : step b s with
    | error e t =>
      rw [hrun] at hfirst
      obtain ⟨hkept, hframe⟩ := hfirst
      exact ⟨hkept, fun b' k r => by rw [hframe]⟩
    | ok found t =>
      obtain ⟨found, next⟩ := found
      rw [hrun] at hfirst
      obtain ⟨hkept, hframe⟩ := hfirst
      simp only [hframe]
      cases next with
      | none => exact ⟨hkept, fun _ _ _ => rfl⟩
      | some b' =>
        simp only
        by_cases hlt : t.size < s.size
        · have hmore := ih t.size (hn ▸ hlt) b' t hkept.ahead rfl
          unfold PlainAt Ends at hmore
          have hframed : ∀ b k r, (t.reframe b k r).size < (s.reframe b k r).size :=
            fun _ _ _ => hlt
          simp only [if_pos hlt, if_pos (hframed _ _ _)]
          cases hrest : unfold State.size step b' t with
          | error e u =>
            rw [hrest] at hmore
            exact ⟨hkept.trans hmore.1, fun b k r => by rw [hmore.2]⟩
          | ok more u =>
            rw [hrest] at hmore
            exact ⟨hkept.trans hmore.1, fun b k r => by rw [hmore.2]⟩
        · have hframed : ∀ b k r, ¬ (t.reframe b k r).size < (s.reframe b k r).size :=
            fun _ _ _ => hlt
          simp only [if_neg hlt, if_neg (hframed _ _ _)]
          exact ⟨hkept, fun _ _ _ => trivial⟩

theorem plain_repeatWhile {step : EStateM ε State Bool} (h : Plain c step) :
    Plain c (repeatWhile State.size step) :=
  plain_bind (plain_unfold (fun _ => plain_bind h fun _ => plain_pure _) ()) fun _ => plain_pure _

/-- A rule that uses itself, if it reads no blocks as long as the rule it uses reads none. -/
theorem plain_recurse {stuck : EStateM ε State α} {rule : EStateM ε State α → EStateM ε State α}
    (hstuck : Plain c stuck) (hrule : ∀ p, Plain c p → Plain c (rule p)) :
    Plain c (recurse State.size stuck rule) := by
  intro s hs
  induction hn : s.size using Nat.strongRecOn generalizing s with
  | ind n ih =>
    have hinner : Plain c fun t =>
        if t.size < s.size then recurse State.size stuck rule t else stuck t := by
      intro t ht
      unfold PlainAt Ends
      by_cases hlt : t.size < s.size
      · have hframed : ∀ b k r, (t.reframe b k r).size < s.size := fun _ _ _ => hlt
        simp only [if_pos hlt, if_pos (hframed _ _ _)]
        exact ih t.size (hn ▸ hlt) t ht rfl
      · have hframed : ∀ b k r, ¬ (t.reframe b k r).size < s.size := fun _ _ _ => hlt
        simp only [if_neg hlt, if_neg (hframed _ _ _)]
        exact hstuck t ht
    have hrun := hrule _ hinner s hs
    unfold PlainAt Ends
    rw [recurse_apply]
    refine hrun.mono (fun a t h => ⟨h.1, fun b k r => ?_⟩) (fun e t h => ⟨h.1, fun b k r => ?_⟩)
    · rw [recurse_apply]
      exact h.2 b k r
    · rw [recurse_apply]
      exact h.2 b k r

/-! ### The smallest productions -/

theorem plain_fail (expected : String) : Plain c (fail expected : Production α) :=
  plain_here_bind fun _ _ => plain_throw _

theorem plain_sees (form : Recognizer) : Plain c (sees form) :=
  plain_here_bind fun _ _ => plain_pure _

/-- What fits is passed, so the cursor only moves forward. -/
theorem plain_take? (form : Recognizer) : Plain c (take? form) := by
  refine plain_here_bind fun d hd => ?_
  split
  · exact plain_pure _
  · exact plain_bind (plain_moveTo (hd.advance _)) fun _ => plain_pure _

theorem plain_passes (form : Recognizer) : Plain c (passes form) :=
  plain_bind (plain_take? form) fun _ => plain_pure _

theorem plain_expect (x : Char) : Plain c (expect x) := by
  refine plain_bind (plain_passes _) fun _ => ?_
  exact plain_ite (plain_pure _) (plain_fail _)

theorem plain_skipTrivia : Plain c skipTrivia :=
  plain_passes _

theorem plain_identifier : Plain c identifier := by
  refine plain_bind (plain_take? _) fun name => ?_
  split
  · exact plain_pure _
  · exact plain_fail _

theorem plain_variableName : Plain c variableName := by
  refine plain_bind (plain_take? _) fun name => ?_
  split
  · exact plain_pure _
  · exact plain_fail _

theorem plain_keyword (word : String) : Plain c (keyword word) :=
  plain_passes _

/-- Whatever follows a check follows it where the check does not fail. -/
theorem plain_check {P : Prop} [Decidable P] {f : Unit → Production α} (expected : String)
    (h : Plain c (f ())) : Plain c (if P then f () else fail expected >>= f) :=
  plain_ite h (plain_bind (plain_fail _) fun _ => h)

/-! ### Lexers inside productions -/

/-- A lexer of its own knows nothing of blocks, so it is enough that it ends ahead of its start. -/
theorem plain_lexing {reading : LexM α} (h : ∀ (d : Cursor) (options : Options),
    Ends reading (.ofCursor d options) (fun _ l => d.Before l.front) (fun _ _ => True)) :
    Plain c (lexing reading) := by
  intro s hs
  have hends := h s.cursor s.options
  unfold PlainAt Ends lexing
  cases hrun : reading (.ofCursor s.cursor s.options) with
  | error e l => exact ⟨⟨hs, rfl⟩, fun b k r => by simp only [State.reframe, hrun]⟩
  | ok a l =>
    exact ⟨⟨hs.trans (hends.of_ok hrun), rfl⟩, fun b k r => by simp only [State.reframe, hrun]⟩

/-- The tokens that are collected lie between the start of the lexer and its end, and a token that
is only in view is not passed. -/
theorem plain_collectUntil (go : β → Token → Option β) (b : β) :
    Plain c (lexing (Lexer.collectUntil go b)) := by
  refine plain_lexing fun d options => ?_
  refine (Lexer.ends_collectUntil rfl .start go b).mono ?_ (fun _ _ _ => trivial)
  rintro _ _ ⟨n, _, hrun, _, _, _, rfl⟩
  exact (hrun.sound rfl).front

theorem plain_lexing_interpolation : Plain c (lexing Lexer.interpolation) := by
  refine plain_lexing fun d options => ?_
  refine (Lexer.forward_interpolation _ rfl).mono ?_ (fun _ _ _ => trivial)
  rintro _ l ⟨hahead, hbefore⟩
  rw [Lexer.front_of_lookahead hahead]
  exact hbefore

theorem plain_interpolation : Plain c interpolation := by
  refine plain_bind (plain_passes _) fun found => plain_ite ?_ (plain_pure _)
  exact plain_bind plain_lexing_interpolation fun _ => plain_pure _

/-- An expression is what its lexer has collected, without the white space before it. -/
theorem plain_expression (stop : Stop) : Plain c (expression stop) := by
  refine plain_bind plain_skipTrivia fun _ => plain_here_bind fun start _ => ?_
  refine plain_bind (plain_collectUntil _ _) fun found => ?_
  exact plain_ite (plain_bind (plain_fail _) fun _ => plain_pure _) (plain_pure _)

/-- Where there is no flag the cursor goes back to where it was, which is ahead of the place. -/
theorem plain_flag (f : Flag) : Plain c (flag f) := by
  refine plain_here_bind fun start hstart => ?_
  refine plain_bind plain_skipTrivia fun _ => plain_here_bind fun d hd => ?_
  have hback : Plain c (do moveTo start; return false) :=
    plain_bind (plain_moveTo hstart) fun _ => plain_pure _
  split
  · exact plain_ite (plain_bind (plain_moveTo (hd.advance _)) fun _ => plain_pure _) hback
  · exact hback

/-! ### Selectors -/

namespace Selector

theorem plain_classPiece : Plain c classPiece := by
  refine plain_bind (plain_passes _) fun _ => plain_ite (plain_pure _) ?_
  refine plain_bind (plain_sees _) fun _ => plain_ite ?_ (plain_pure _)
  exact plain_bind (plain_passes _) fun _ => plain_interpolation

theorem plain_attributePiece : Plain c attributePiece := by
  have hclose : Plain c (do expect ']'; return true) :=
    plain_bind (plain_expect _) fun _ => plain_pure _
  refine plain_bind (plain_passes _) fun _ => plain_ite ?_ (plain_pure _)
  refine plain_bind plain_skipTrivia fun _ => ?_
  refine plain_bind (plain_orM (plain_passes _) plain_interpolation) fun _ => plain_check _ ?_
  refine plain_bind plain_skipTrivia fun _ => plain_bind (plain_passes _) fun _ => ?_
  refine plain_ite (plain_bind plain_skipTrivia fun _ => ?_) hclose
  refine plain_bind (plain_orM (plain_passes _) plain_interpolation) fun _ => plain_check _ ?_
  exact plain_bind plain_skipTrivia fun _ => hclose

theorem plain_negationPiece {sequence : Production Bool} (h : Plain c sequence) :
    Plain c (negationPiece sequence) := by
  refine plain_bind (plain_passes _) fun _ => plain_ite ?_ (plain_pure _)
  refine plain_bind plain_skipTrivia fun _ => plain_bind h fun _ => plain_check _ ?_
  refine plain_bind plain_skipTrivia fun _ => ?_
  exact plain_bind (plain_expect _) fun _ => plain_pure _

/-- A colon that no name follows is given back. -/
theorem plain_pseudoPiece : Plain c pseudoPiece := by
  refine plain_here_bind fun start hstart => plain_bind (plain_passes _) fun _ => ?_
  refine plain_ite ?_ (plain_pure _)
  refine plain_bind (plain_orM (plain_passes _) plain_interpolation) fun _ => plain_ite ?_ ?_
  · refine plain_bind (plain_passes _) fun _ => plain_ite ?_ (plain_pure _)
    exact plain_bind (plain_passes _) fun _ => plain_check _ (plain_pure _)
  · exact plain_bind (plain_moveTo hstart) fun _ => plain_pure _

theorem plain_piece {sequence : Production Bool} (h : Plain c sequence) :
    Plain c (piece sequence) :=
  plain_orM (plain_passes _) <| plain_orM plain_classPiece <| plain_orM plain_attributePiece <|
    plain_orM (plain_negationPiece h) <| plain_orM plain_pseudoPiece plain_interpolation

/-- A run of tokens is what a lexer takes up to the next operator. -/
theorem run_apply (s : State) :
    run s = match lexing (Lexer.takeUntil Token.isOperator) s with
      | .ok (tokens, _) t => if tokens.isEmpty then .ok false s else .ok true t
      | .error _ _ => .ok false s := rfl

/-- Where its lexer fails or finds nothing a run gives everything back: it goes on with the state
from before. -/
theorem plain_run : Plain c run := by
  have htry : ∀ {p : Production (List Token × Lexer)}, Plain c p →
      Plain c (fun s => match p s with
        | .ok (tokens, _) t => if tokens.isEmpty then .ok false s else .ok true t
        | .error _ _ => (.ok false s : EStateM.Result SyntaxError State Bool)) := by
    intro p hp s hs
    have hstay : Kept c s s := ⟨hs, rfl⟩
    have hrun := hp s hs
    unfold PlainAt Ends at hrun ⊢
    simp only
    cases hresult : p s with
    | error e t =>
      rw [hresult] at hrun
      exact ⟨hstay, fun b k r => by simp only [hrun.2]⟩
    | ok found t =>
      rw [hresult] at hrun
      simp only [hrun.2]
      by_cases hempty : found.1.isEmpty = true
      · simp only [hempty, if_true]
        exact ⟨hstay, fun _ _ _ => trivial⟩
      · simp only [hempty, Bool.false_eq_true, if_false]
        exact ⟨hrun.1, fun _ _ _ => trivial⟩
  exact htry (plain_collectUntil _ _)

theorem plain_sequenceBy {sequence : Production Bool} (h : Plain c sequence) :
    Plain c (sequenceBy sequence) := by
  refine plain_here_bind fun start _ => plain_bind (plain_repeatWhile (plain_piece h)) fun _ => ?_
  exact plain_here_bind fun _ _ => plain_ite (plain_pure _) plain_run

/-- A sequence holds others only inside of negations, and these start ahead of where it starts. -/
theorem plain_sequence : Plain c sequence :=
  plain_recurse (plain_fail _) fun _ => plain_sequenceBy

/-- White space is given back if neither a combinator nor a selector is behind it. -/
theorem plain_continuation : Plain c continuation := by
  refine plain_here_bind fun start hstart => plain_bind plain_skipTrivia fun _ => ?_
  refine plain_bind (plain_passes _) fun combined => plain_bind plain_skipTrivia fun _ => ?_
  refine plain_bind plain_sequence fun found => plain_ite (plain_pure _) ?_
  exact plain_ite (plain_fail _) (plain_bind (plain_moveTo hstart) fun _ => plain_pure _)

theorem plain_selector : Plain c selector := by
  have hrest : Plain c (do
      unless ← sequence do
        fail "selector"
      repeatWhile State.size continuation) :=
    plain_bind plain_sequence fun _ => plain_check _ (plain_repeatWhile plain_continuation)
  refine plain_bind (plain_passes _) fun _ => plain_ite ?_ hrest
  exact plain_bind plain_skipTrivia fun _ => hrest

theorem plain_alternative : Plain c alternative := by
  refine plain_here_bind fun start hstart => plain_bind plain_skipTrivia fun _ => ?_
  refine plain_bind (plain_passes _) fun _ => plain_ite ?_ ?_
  · exact plain_bind plain_skipTrivia fun _ => plain_bind plain_selector fun _ => plain_pure _
  · exact plain_bind (plain_moveTo hstart) fun _ => plain_pure _

theorem plain_group : Plain c group :=
  plain_bind plain_selector fun _ => plain_repeatWhile plain_alternative

theorem plain_groupText : Plain c groupText :=
  plain_here_bind fun _ _ => plain_bind plain_group fun _ => plain_here_bind fun _ _ => plain_pure _

end Selector
/-! ### Statements without blocks -/

theorem plain_comment : Plain c comment := by
  refine plain_here_bind fun _ _ => plain_bind (plain_take? _) fun text => ?_
  split
  · exact plain_pure _
  · refine plain_bind (plain_take? _) fun text => ?_
    split
    · exact plain_pure _
    · exact plain_pure _

theorem plain_assignment : Plain c assignment := by
  refine plain_here_bind fun _ _ => plain_bind plain_variableName fun name => ?_
  refine plain_bind plain_skipTrivia fun _ => plain_bind (plain_expect _) fun _ => ?_
  refine plain_bind (plain_expression _) fun value => ?_
  exact plain_bind (plain_flag _) fun _ => plain_pure _

theorem plain_namePiece : Plain c namePiece :=
  plain_orM (plain_passes _) plain_interpolation

/-- A name goes on as long as there are pieces of it. -/
theorem plain_propertyName : Plain c propertyName := by
  refine plain_here_bind fun _ _ => plain_bind (plain_repeatWhile plain_namePiece) fun _ => ?_
  exact plain_here_bind fun _ _ => plain_ite (plain_pure _) (plain_fail _)

/-- The name of a declaration with its colon. -/
theorem plain_declarationName (start : Cursor) : Plain c (do
    propertyName
    let name := (← here).textSince start
    let _ ← skipTrivia
    expect ':'
    return name) :=
  plain_bind plain_propertyName fun _ => plain_here_bind fun _ _ =>
    plain_bind plain_skipTrivia fun _ => plain_bind (plain_expect _) fun _ => plain_pure _

/-- A production ends as an attempt as it ends by itself. -/
theorem ends_during {p : Production α} (committed : Bool) {post : α → State → Prop}
    {fail : SyntaxError → State → Prop} (h : Ends p s post fail) :
    Ends (during committed p) s post (fun r => fail r.error) := by
  unfold Ends at h ⊢
  unfold during
  cases hp : p s with
  | error e t => rwa [hp] at h
  | ok a t => rwa [hp] at h

theorem plain_during {p : Production α} (committed : Bool) (h : Plain c p) :
    Plain c (during committed p) := by
  intro s hs
  have hrun := h s hs
  unfold PlainAt Ends at hrun ⊢
  unfold during
  cases hresult : p s with
  | error e t =>
    rw [hresult] at hrun
    exact ⟨hrun.1, fun b k r => by simp only [hrun.2]⟩
  | ok a t =>
    rw [hresult] at hrun
    exact ⟨hrun.1, fun b k r => by simp only [hrun.2]⟩

theorem plain_listEnds (nested : Bool) : Plain c (listEnds nested) :=
  plain_here_bind fun _ _ => plain_pure _

namespace Directive

theorem plain_item {p : Production α} (h : Plain c p) : Plain c (item p) := by
  refine plain_bind h fun a => plain_bind plain_skipTrivia fun _ => ?_
  refine plain_bind (plain_passes _) fun _ => plain_ite (plain_pure _) ?_
  exact plain_bind (plain_expect _) fun _ => plain_pure _

/-- A list in parentheses reads no blocks if its items read none. -/
theorem plain_list {p : Production α} (h : Plain c p) : Plain c (list p) := by
  refine plain_bind (plain_expect _) fun _ => plain_bind plain_skipTrivia fun _ => ?_
  refine plain_bind (plain_passes _) fun _ => plain_ite (plain_pure _) ?_
  exact plain_unfold (fun _ => plain_item h) ()

theorem plain_parameter : Plain c parameter := by
  refine plain_bind plain_skipTrivia fun _ => plain_bind plain_variableName fun name => ?_
  refine plain_bind plain_skipTrivia fun _ => plain_bind (plain_passes _) fun _ => ?_
  exact plain_ite (plain_bind (plain_expression _) fun _ => plain_pure _) (plain_pure _)

theorem plain_inclusion (line : Nat) : Plain c (inclusion line) := by
  refine plain_bind plain_skipTrivia fun _ => plain_bind plain_identifier fun name => ?_
  refine plain_here_bind fun behind hbehind => plain_bind plain_skipTrivia fun _ => ?_
  refine plain_bind (plain_sees _) fun _ => plain_ite ?_ ?_
  · exact plain_bind (plain_list (plain_expression _)) fun _ => plain_pure _
  · exact plain_bind (plain_moveTo hbehind) fun _ => plain_pure _

/-- Where no expression is found the cursor goes back to where it was looked for. -/
theorem plain_asExpression {start : Cursor} (h : c.Before start) :
    Plain c (value.asExpression start) := by
  intro s hs
  have hrun := plain_expression (c := c) .statement s hs
  unfold PlainAt Ends at hrun ⊢
  unfold value.asExpression
  cases hresult : expression .statement s with
  | error e t =>
    rw [hresult] at hrun
    exact ⟨⟨h, hrun.1.options⟩, fun b k r => by simp only [hrun.2]; rfl⟩
  | ok a t =>
    rw [hresult] at hrun
    exact ⟨hrun.1, fun b k r => by simp only [hrun.2]⟩

/-- The argument of a general directive is an expression, or else it is read once more as selectors.
-/
theorem plain_value : Plain c value := by
  refine plain_here_bind fun behind hbehind => plain_bind plain_skipTrivia fun _ => ?_
  refine plain_here_bind fun start hstart => plain_ite ?_ ?_
  · exact plain_bind (plain_moveTo hbehind) fun _ => plain_pure _
  · exact plain_orElse (plain_asExpression hstart) (plain_map Selector.plain_groupText)

end Directive
end Grammar
end Stylesheet
