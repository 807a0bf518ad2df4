import Stylesheet.Proofs.Productions
import Stylesheet.Proofs.Replica

/-!
# Productions at places that look alike

A production sees of a place only what a `Replica` keeps.  So it does the same in a second text as
in the first one, from places that look alike: it answers the same with the locations moved, or
fails in both, and leaves the places alike (`Replica.Follows`).  The rules for blocks are
parameters, one for each of the two runs.
-/
namespace Stylesheet
namespace Replica

open Grammar

variable {R : Replica} {α α' β β' : Type}

/-- A state that has done the same as another one elsewhere. -/
structure SameState (R : Replica) (s t : State) : Prop where
  cursor : R.place s.cursor t.cursor
  options : t.options = R.options s.options
  blockEnd : t.blockEnd = s.blockEnd.map (· + R.bytes) ∨ s.blockEnd = none ∧ t.blockEnd = R.stale
  warnings : t.warnings = R.earlier ++ s.warnings.map (Deprecation.lower R.lines)
  backtracks : R.retried s.backtracks t.backtracks
  rollback : t.rollback = s.rollback

/-- The second production does elsewhere what the first one does. -/
abbrev Follows (R : Replica) (answer : α → α' → Prop) (p : Production α) (q : Production α') :
    Prop :=
  Simulates R.SameState answer R.error p q

/-- The failures of two attempts that are alike. -/
def Rejects (R : Replica) (r r' : Rejected) : Prop :=
  r'.committed = r.committed ∧ R.error r.error r'.error

/-- The second attempt does elsewhere what the first one does. -/
abbrev Attempts (R : Replica) (answer : α → α' → Prop) (p : Attempt α) (q : Attempt α') : Prop :=
  Simulates R.SameState answer R.Rejects p q

/-- The same node, elsewhere. -/
def SameNode (R : Replica) (n m : Node) : Prop :=
  m = n.transport R.move R.lines

/-- The same nodes, elsewhere. -/
def SameNodes (R : Replica) (ns ms : List Node) : Prop :=
  ms = ns.map (Node.transport R.move R.lines)

/-- The same expression, elsewhere. -/
def SameExpression (R : Replica) (e e' : Expression) : Prop :=
  e' = e.transport R.move R.lines

namespace SameState

variable {s t : State} (h : R.SameState s t)
include h

theorem size : t.size = s.size :=
  left h.cursor

/-- Places that look alike may take the place of the ones where the states stand. -/
theorem move {c d : Cursor} (hplace : R.place c d) :
    R.SameState { s with cursor := c } { t with cursor := d } :=
  { h with cursor := hplace }

/-- Whether a block has just ended is told by an offset. The end of a block that the second state
remembers from before the text is at none of the places in it. -/
theorem atBlockEnd : t.atBlockEnd = s.atBlockEnd := by
  unfold State.atBlockEnd
  rcases h.blockEnd with hend | ⟨hnone, hstale⟩
  · rw [hend, offset h.cursor]
    cases s.blockEnd with
    | none => rfl
    | some n => simp
  · rw [hnone, hstale, decide_eq_false (R.stale_ne h.cursor)]
    rfl

/-- So what was read as a declaration is accepted in both texts or in neither. -/
theorem atEndOfDeclaration : t.atEndOfDeclaration = s.atEndOfDeclaration := by
  have hskip := skip h.cursor Recognizer.trivia
  have hend : atStatementEnd t.cursor = atStatementEnd s.cursor := by
    unfold atStatementEnd
    simp only [atEnd hskip, sees hskip]
  rw [State.atEndOfDeclaration, h.atBlockEnd, hend, State.atEndOfDeclaration]

/-- What is given back is alike. -/
theorem giveUp {s' t' : State} (h' : R.SameState s' t') :
    R.SameState (s'.giveUp s) (t'.giveUp t) where
  cursor := h.cursor
  options := h'.options
  blockEnd := by
    unfold State.giveUp
    simp only [h'.rollback]
    cases s'.rollback with
    | position => exact h'.blockEnd
    | everything => exact h.blockEnd
  warnings := h.warnings
  backtracks := by
    show R.retried (s'.backtracks ++ [s.cursor.line]) (t'.backtracks ++ [t.cursor.line])
    rw [line h.cursor]
    exact R.retried_concat _ h'.backtracks
  rollback := h'.rollback

end SameState

theorem size_of_sameState (s t : State) (h : R.SameState s t) : t.size = s.size :=
  h.size

/-! ### The smallest productions -/

/-- What follows at the place where it starts may use that place as one that looks like the other.
-/
theorem follows_here_bind {answer : β → β' → Prop} {f : Cursor → Production β}
    {g : Cursor → Production β'} (h : ∀ c d, R.place c d → R.Follows answer (f c) (g d)) :
    R.Follows answer (here >>= f) (here >>= g) :=
  fun s t hs => h s.cursor t.cursor hs.cursor s t hs

theorem follows_moveTo {c d : Cursor} (h : R.place c d) : R.Follows Eq (moveTo c) (moveTo d) :=
  simulates_modify fun _ _ hs => hs.move h

/-- An error tells of the place and of the text around it, which look alike. -/
theorem follows_fail {answer : α → α' → Prop} (expected : String) :
    R.Follows answer (fail expected) (fail expected) :=
  follows_here_bind fun _ _ h => simulates_throw (R.unexpected expected h)

/-- What follows a check follows it where the check does not fail. -/
theorem follows_check {answer : α → α' → Prop} {P Q : Prop} [Decidable P] [Decidable Q]
    (hiff : P ↔ Q) {f : Unit → Production α} {g : Unit → Production α'} (expected : String)
    (h : R.Follows answer (f ()) (g ())) :
    R.Follows answer (if P then f () else fail expected >>= f)
      (if Q then g () else fail expected >>= g) :=
  simulates_ite hiff h (simulates_after (follows_fail expected) fun _ => h)

theorem follows_sees (form : Recognizer) : R.Follows Eq (Grammar.sees form) (Grammar.sees form) :=
  follows_here_bind fun _ _ h => simulates_pure (sees h form).symm

/-- A form takes the same from both texts, for what is left of them is the same. -/
theorem follows_take? (form : Recognizer) : R.Follows Eq (take? form) (take? form) := by
  intro s t hs
  rw [take?_apply, take?_apply, R.rest hs.cursor]
  cases form s.cursor.rest with
  | none => exact .ok rfl hs
  | some n => exact .ok rfl (hs.move (R.advance n hs.cursor))

theorem follows_passes (form : Recognizer) : R.Follows Eq (passes form) (passes form) :=
  simulates_after (follows_take? form) fun _ => simulates_pure rfl

theorem follows_expect (x : Char) : R.Follows Eq (expect x) (expect x) :=
  simulates_after (follows_passes _) fun _ =>
    simulates_ite Iff.rfl (simulates_pure rfl) (follows_fail _)

theorem follows_skipTrivia : R.Follows Eq Grammar.skipTrivia Grammar.skipTrivia :=
  follows_passes _

theorem follows_identifier : R.Follows Eq identifier identifier := by
  refine simulates_after (follows_take? _) fun name => ?_
  cases name with
  | some name => exact simulates_pure rfl
  | none => exact follows_fail _

theorem follows_variableName : R.Follows Eq variableName variableName := by
  refine simulates_after (follows_take? _) fun name => ?_
  cases name with
  | some name => exact simulates_pure rfl
  | none => exact follows_fail _

theorem follows_keyword (word : String) : R.Follows Eq (keyword word) (keyword word) :=
  follows_passes _

/-! ### Putting productions together -/

theorem follows_map {answer : α → α' → Prop} {answer' : β → β' → Prop} {f : α → β} {g : α' → β'}
    {p : Production α} {q : Production α'} (h : R.Follows answer p q)
    (hf : ∀ a b, answer a b → answer' (f a) (g b)) : R.Follows answer' (f <$> p) (g <$> q) :=
  simulates_bind h fun a b hab => simulates_pure (hf a b hab)

theorem follows_orM {p p' q q' : Production Bool} (hp : R.Follows Eq p q)
    (hp' : R.Follows Eq p' q') : R.Follows Eq (p <||> p') (q <||> q') := by
  refine simulates_after hp fun a => ?_
  cases a with
  | true => exact simulates_pure rfl
  | false => exact hp'

theorem follows_andM {p p' q q' : Production Bool} (hp : R.Follows Eq p q)
    (hp' : R.Follows Eq p' q') : R.Follows Eq (p <&&> p') (q <&&> q') := by
  refine simulates_after hp fun a => ?_
  cases a with
  | true => exact hp'
  | false => exact simulates_pure rfl

/-- The second production goes on where the first one failed, in both texts. -/
theorem follows_orElse {answer : α → α' → Prop} {p p' : Production α} {q q' : Production α'}
    (hp : R.Follows answer p q) (hp' : R.Follows answer p' q') :
    R.Follows answer (p <|> p') (q <|> q') := by
  intro s t hs
  have hrun := hp s t hs
  rw [orElse_apply, orElse_apply]
  generalize p s = r, q t = r' at hrun ⊢
  cases hrun with
  | ok answers states => exact .ok answers states
  | error _ states => exact hp' _ _ states

/-- A loop goes through as many rounds in both texts: the comparison that may end it is between
sizes, and these are the same. -/
theorem follows_unfold {f : α → α'} {step : β → Production (List α × Option β)}
    {step' : β → Production (List α' × Option β)}
    (h : ∀ b, R.Follows (fun r r' => r' = (r.1.map f, r.2)) (step b) (step' b)) (b : β) :
    R.Follows (fun as bs => bs = as.map f) (unfold State.size step b) (unfold State.size step' b) :=
  simulates_unfold size_of_sameState h b

theorem follows_repeatWhile {step step' : Production Bool} (h : R.Follows Eq step step') :
    R.Follows Eq (repeatWhile State.size step) (repeatWhile State.size step') := by
  refine simulates_bind (follows_unfold (f := id) (fun _ => ?_) ()) fun _ _ _ => simulates_pure rfl
  exact simulates_after h fun _ => simulates_pure rfl

/-- A failure says in both texts whether the attempt was committed. -/
theorem follows_during {answer : α → α' → Prop} {p : Production α} {q : Production α'}
    (committed : Bool) (h : R.Follows answer p q) :
    R.Attempts answer (during committed p) (during committed q) := by
  intro s t hs
  have hrun := h s t hs
  unfold during
  generalize p s = r, q t = r' at hrun ⊢
  cases hrun with
  | ok answers states => exact .ok answers states
  | error errors states => exact .error ⟨rfl, errors⟩ states

/-! ### Lexers and expressions -/

/-- A lexer that starts at the two places has no token in view, so it is the same lexer in both. Its
warnings come behind those of the states. -/
theorem follows_lexing {answer : α → α' → Prop} {reading : LexM α} {reading' : LexM α'}
    (h : Simulates R.SameLexer answer R.error reading reading') :
    R.Follows (fun r r' => answer r.1 r'.1 ∧ R.SameLexer r.2 r'.2) (lexing reading)
      (lexing reading') := by
  intro s t hs
  have hrun := h _ _ (sameLexer_ofCursor hs.cursor hs.options)
  unfold lexing
  generalize reading (.ofCursor s.cursor s.options) = r,
    reading' (.ofCursor t.cursor t.options) = r' at hrun ⊢
  cases hrun with
  | error errors states => exact .error errors hs
  | ok answers states =>
    refine .ok ⟨answers, states⟩ { hs with cursor := states.front, warnings := ?_ }
    rw [hs.warnings, states.warnings, List.map_append, List.append_assoc]

theorem follows_interpolation : R.Follows Eq interpolation interpolation := by
  refine simulates_after (follows_passes _) fun found =>
    simulates_ite Iff.rfl ?_ (simulates_pure rfl)
  exact simulates_bind (follows_lexing simulates_interpolation) fun _ _ _ => simulates_pure rfl

/-- What ends an expression does not depend on where it is. -/
theorem after_relocate (stop : Stop) (n : Nesting) (t : Token) :
    n.after stop (t.relocate R.move) = n.after stop t := by
  unfold Nesting.after
  rw [Token.kind_relocate]
  cases t.kind <;> rfl

/-- An expression has the same text and the same tokens, with their locations moved. -/
theorem follows_expression (stop : Stop) :
    R.Follows R.SameExpression (expression stop) (expression stop) := by
  refine simulates_after follows_skipTrivia fun _ => follows_here_bind fun c d hplace => ?_
  have hcollect : Simulates R.SameLexer R.SameTokens R.error
      (Lexer.collectUntil (Nesting.after stop) {}) (Lexer.collectUntil (Nesting.after stop) {}) :=
    simulates_collectUntil simulates_interpolation (after_relocate stop) {}
  refine simulates_bind (follows_lexing hcollect) ?_
  rintro ⟨ts, l⟩ ⟨us, m⟩ ⟨htokens, hlexer⟩
  have hempty : us.isEmpty = ts.isEmpty := by
    rw [show us = ts.map _ from htokens]
    exact List.isEmpty_map
  have hanswer : R.Follows R.SameExpression
      (pure ⟨l.previousEnd.textSince c, ts, c.line⟩ : Production Expression)
      (pure ⟨m.previousEnd.textSince d, us, d.line⟩) := by
    refine simulates_pure ?_
    rw [SameExpression, R.textSince hplace hlexer.previousEnd, line hplace,
      show us = ts.map _ from htokens]
    rfl
  refine simulates_ite (by rw [hempty]) ?_ hanswer
  exact simulates_after (follows_fail _) fun _ => hanswer

theorem follows_some_expression (stop : Stop) :
    R.Follows (fun e e' => e' = e.map (Expression.transport R.move R.lines))
      (some <$> expression stop) (some <$> expression stop) :=
  follows_map (follows_expression stop) fun _ _ h => congrArg some h

theorem follows_flag (f : Flag) : R.Follows Eq (flag f) (flag f) := by
  refine follows_here_bind fun c d hplace => simulates_after follows_skipTrivia fun _ => ?_
  refine follows_here_bind fun c' d' hplace' => ?_
  have hback : R.Follows Eq (do moveTo c; return false) (do moveTo d; return false) :=
    simulates_after (follows_moveTo hplace) fun _ => simulates_pure rfl
  rw [R.rest hplace']
  cases bangName? c'.rest with
  | none => exact hback
  | some found =>
    obtain ⟨name, n⟩ := found
    refine simulates_ite Iff.rfl ?_ hback
    exact simulates_after (follows_moveTo (R.advance n hplace')) fun _ => simulates_pure rfl

/-! ### Selectors -/

namespace Selector

open Grammar.Selector

theorem follows_classPiece : R.Follows Eq classPiece classPiece := by
  refine simulates_after (follows_passes _) fun _ => simulates_ite Iff.rfl (simulates_pure rfl) ?_
  refine simulates_after (follows_sees _) fun _ => simulates_ite Iff.rfl ?_ (simulates_pure rfl)
  exact simulates_after (follows_passes _) fun _ => follows_interpolation

theorem follows_attributePiece : R.Follows Eq attributePiece attributePiece := by
  have hclose : R.Follows Eq (do expect ']'; return true) (do expect ']'; return true) :=
    simulates_after (follows_expect _) fun _ => simulates_pure rfl
  refine simulates_after (follows_passes _) fun _ => simulates_ite Iff.rfl ?_ (simulates_pure rfl)
  refine simulates_after follows_skipTrivia fun _ => ?_
  refine simulates_after (follows_orM (follows_passes _) follows_interpolation) fun _ => ?_
  refine follows_check Iff.rfl _ ?_
  refine simulates_after follows_skipTrivia fun _ => simulates_after (follows_passes _) fun _ => ?_
  refine simulates_ite Iff.rfl (simulates_after follows_skipTrivia fun _ => ?_) hclose
  refine simulates_after (follows_orM (follows_passes _) follows_interpolation) fun _ => ?_
  refine follows_check Iff.rfl _ ?_
  exact simulates_after follows_skipTrivia fun _ => hclose

section
variable {sequence sequence' : Production Bool} (h : R.Follows Eq sequence sequence')
include h

theorem follows_negationPiece :
    R.Follows Eq (negationPiece sequence) (negationPiece sequence') := by
  refine simulates_after (follows_passes _) fun _ => simulates_ite Iff.rfl ?_ (simulates_pure rfl)
  refine simulates_after follows_skipTrivia fun _ => simulates_after h fun _ => ?_
  refine follows_check Iff.rfl _ (simulates_after follows_skipTrivia fun _ => ?_)
  exact simulates_after (follows_expect _) fun _ => simulates_pure rfl

omit h in
/-- A colon with no name behind it is given back in both texts. -/
theorem follows_pseudoPiece : R.Follows Eq pseudoPiece pseudoPiece := by
  refine follows_here_bind fun c d hplace => simulates_after (follows_passes _) fun _ => ?_
  refine simulates_ite Iff.rfl ?_ (simulates_pure rfl)
  refine simulates_after (follows_orM (follows_passes _) follows_interpolation) fun _ => ?_
  refine simulates_ite Iff.rfl ?_ ?_
  · refine simulates_after (follows_passes _) fun _ => simulates_ite Iff.rfl ?_ (simulates_pure rfl)
    exact simulates_after (follows_passes _) fun _ => follows_check Iff.rfl _ (simulates_pure rfl)
  · exact simulates_after (follows_moveTo hplace) fun _ => simulates_pure rfl

theorem follows_piece : R.Follows Eq (piece sequence) (piece sequence') :=
  follows_orM (follows_passes _) <| follows_orM follows_classPiece <|
    follows_orM follows_attributePiece <| follows_orM (follows_negationPiece h) <|
      follows_orM follows_pseudoPiece follows_interpolation

omit h in
theorem isOperator_relocate (t : Token) : (t.relocate R.move).isOperator = t.isOperator := by
  unfold Token.isOperator
  rw [Token.kind_relocate]
  cases t.kind <;> rfl

omit h in
/-- Both runs give back what they read if their lexers fail or find nothing. -/
theorem follows_run : R.Follows Eq run run := by
  intro s t hs
  have hrun := follows_lexing (simulates_takeUntil isOperator_relocate) s t hs
  rw [run_apply, run_apply]
  generalize lexing (Lexer.takeUntil Token.isOperator) s = r,
    lexing (Lexer.takeUntil Token.isOperator) t = r' at hrun ⊢
  cases hrun with
  | error _ _ => exact .ok rfl hs
  | @ok found found' _ _ answers states =>
    obtain ⟨ts, l⟩ := found
    obtain ⟨us, m⟩ := found'
    have hempty : us.isEmpty = ts.isEmpty := by
      rw [show us = ts.map _ from answers.1]
      exact List.isEmpty_map
    simp only [hempty]
    split
    · exact .ok rfl hs
    · exact .ok rfl states

/-- Whether pieces were found is told by two offsets, and both of them are moved by the same number
of bytes. -/
theorem follows_sequenceBy : R.Follows Eq (sequenceBy sequence) (sequenceBy sequence') := by
  refine follows_here_bind fun c d hplace => ?_
  refine simulates_after (follows_repeatWhile (follows_piece h)) fun _ => ?_
  refine follows_here_bind fun c' d' hplace' => simulates_ite ?_ (simulates_pure rfl) follows_run
  rw [offset hplace, offset hplace']
  omega

end

theorem follows_sequence : R.Follows Eq sequence sequence :=
  simulates_recurse size_of_sameState (follows_fail _) fun _ _ => follows_sequenceBy

/-- Behind white space alone what is no selector is given back; behind a combinator it is an error
in both texts. -/
theorem follows_continuation : R.Follows Eq continuation continuation := by
  refine follows_here_bind fun c d hplace => simulates_after follows_skipTrivia fun _ => ?_
  refine simulates_after (follows_passes _) fun _ => simulates_after follows_skipTrivia fun _ => ?_
  refine simulates_after follows_sequence fun _ => simulates_ite Iff.rfl (simulates_pure rfl) ?_
  refine simulates_ite Iff.rfl (follows_fail _) ?_
  exact simulates_after (follows_moveTo hplace) fun _ => simulates_pure rfl

theorem follows_selector : R.Follows Eq selector selector := by
  have hrest : R.Follows Eq (do
      unless ← sequence do
        fail "selector"
      repeatWhile State.size continuation) (do
      unless ← sequence do
        fail "selector"
      repeatWhile State.size continuation) :=
    simulates_after follows_sequence fun _ =>
      follows_check Iff.rfl _ (follows_repeatWhile follows_continuation)
  refine simulates_after (follows_passes _) fun _ => simulates_ite Iff.rfl ?_ hrest
  exact simulates_after follows_skipTrivia fun _ => hrest

theorem follows_alternative : R.Follows Eq alternative alternative := by
  refine follows_here_bind fun c d hplace => simulates_after follows_skipTrivia fun _ => ?_
  refine simulates_after (follows_passes _) fun _ => simulates_ite Iff.rfl ?_ ?_
  · refine simulates_after follows_skipTrivia fun _ => ?_
    exact simulates_after follows_selector fun _ => simulates_pure rfl
  · exact simulates_after (follows_moveTo hplace) fun _ => simulates_pure rfl

/-- The text of a group lies between two places, so it is the same. -/
theorem follows_groupText : R.Follows Eq groupText groupText := by
  refine follows_here_bind fun c d hplace => ?_
  refine simulates_after (p := group) (q := group) ?_ fun _ => ?_
  · exact simulates_after follows_selector fun _ => follows_repeatWhile follows_alternative
  · refine follows_here_bind fun c' d' hplace' => simulates_pure ?_
    rw [R.textSince hplace hplace']

end Selector

/-! ### Statements without blocks -/

theorem sameNode_leaf {kind kind' : NodeKind} {l l' : Nat}
    (hkind : kind' = kind.transport R.move R.lines) (hline : l' = l + R.lines) :
    R.SameNode (.leaf kind l) (.leaf kind' l') := by
  rw [SameNode, Node.transport_leaf, hkind, hline]

/-- A node is the same elsewhere if its kind is, the nodes below it are, and its line is moved. -/
theorem sameNode_node {kind kind' : NodeKind} {l l' : Nat} {ns ms : List Node}
    (hkind : kind' = kind.transport R.move R.lines) (hline : l' = l + R.lines)
    (hnodes : R.SameNodes ns ms) : R.SameNode ⟨kind, l, ns⟩ ⟨kind', l', ms⟩ := by
  rw [SameNode, Node.transport_eq, hkind, hline, hnodes]

theorem follows_comment :
    R.Follows (fun n m => m = n.map (Node.transport R.move R.lines)) comment comment := by
  refine follows_here_bind fun c d hplace => simulates_after (follows_take? _) fun text => ?_
  have hanswer : ∀ (text : Text) (silent : Bool),
      some (Node.leaf (.comment text silent) d.line) =
        (some (Node.leaf (.comment text silent) c.line)).map (Node.transport R.move R.lines) :=
    fun text silent => congrArg some (sameNode_leaf rfl (line hplace))
  cases text with
  | some text => exact simulates_pure (hanswer text false)
  | none =>
    refine simulates_after (follows_take? _) fun text => ?_
    cases text with
    | some text => exact simulates_pure (hanswer text true)
    | none => exact simulates_pure rfl

theorem follows_assignment : R.Follows R.SameNode assignment assignment := by
  refine follows_here_bind fun c d hplace => simulates_after follows_variableName fun name => ?_
  refine simulates_after follows_skipTrivia fun _ => simulates_after (follows_expect _) fun _ => ?_
  refine simulates_bind (follows_expression _) fun e e' he => ?_
  refine simulates_after (follows_flag _) fun guarded => simulates_pure ?_
  exact sameNode_leaf (by rw [he, NodeKind.transport]) (line hplace)

theorem follows_namePiece : R.Follows Eq namePiece namePiece :=
  follows_orM (follows_passes _) follows_interpolation

theorem follows_propertyName : R.Follows Eq propertyName propertyName := by
  refine follows_here_bind fun c d hplace => ?_
  refine simulates_after (follows_repeatWhile follows_namePiece) fun _ => ?_
  refine follows_here_bind fun c' d' hplace' =>
    simulates_ite ?_ (simulates_pure rfl) (follows_fail _)
  rw [offset hplace, offset hplace']
  omega

theorem follows_listEnds (nested : Bool) : R.Follows Eq (listEnds nested) (listEnds nested) := by
  refine follows_here_bind fun c d hplace => simulates_pure ?_
  rw [atEnd hplace, sees hplace]

namespace Directive

open Grammar.Directive

/-- The items of a list are found one by one in the same order. -/
theorem follows_list {f : α → α'} {p : Production α} {q : Production α'}
    (h : R.Follows (fun a b => b = f a) p q) :
    R.Follows (fun as bs => bs = as.map f) (list p) (list q) := by
  refine simulates_after (follows_expect _) fun _ => simulates_after follows_skipTrivia fun _ => ?_
  refine simulates_after (follows_passes _) fun _ => simulates_ite Iff.rfl (simulates_pure rfl) ?_
  refine follows_unfold (fun _ => simulates_bind h fun a b hab => ?_) ()
  refine simulates_after follows_skipTrivia fun _ => simulates_after (follows_passes _) fun _ => ?_
  refine simulates_ite Iff.rfl (simulates_pure (by rw [hab]; rfl)) ?_
  exact simulates_after (follows_expect _) fun _ => simulates_pure (by rw [hab]; rfl)

theorem follows_parameter :
    R.Follows (fun p q => q = p.transport R.move R.lines) parameter parameter := by
  refine simulates_after follows_skipTrivia fun _ =>
    simulates_after follows_variableName fun name => ?_
  refine simulates_after follows_skipTrivia fun _ => simulates_after (follows_passes _) fun _ => ?_
  refine simulates_ite Iff.rfl (simulates_bind (follows_expression _) fun e e' he => ?_) ?_
  · refine simulates_pure ?_
    rw [he]
    rfl
  · exact simulates_pure rfl

/-- Without arguments both productions go back to behind the name. -/
theorem follows_inclusion {l l' : Nat} (hline : l' = l + R.lines) :
    R.Follows R.SameNode (inclusion l) (inclusion l') := by
  refine simulates_after follows_skipTrivia fun _ =>
    simulates_after follows_identifier fun name => ?_
  refine follows_here_bind fun c d hplace => simulates_after follows_skipTrivia fun _ => ?_
  refine simulates_after (follows_sees _) fun _ => simulates_ite Iff.rfl ?_ ?_
  · refine simulates_bind (follows_list (follows_expression _)) fun es es' hes => simulates_pure ?_
    exact sameNode_leaf (by rw [hes, NodeKind.transport]) hline
  · refine simulates_after (follows_moveTo hplace) fun _ => simulates_pure ?_
    exact sameNode_leaf rfl hline

/-- Where no expression is found both go back to where they looked for one. -/
theorem follows_asExpression {c d : Cursor} (hplace : R.place c d) :
    R.Follows Eq (value.asExpression c) (value.asExpression d) := by
  intro s t hs
  have hrun := follows_expression .statement s t hs
  unfold value.asExpression
  generalize expression .statement s = r, expression .statement t = r' at hrun ⊢
  cases hrun with
  | error errors states => exact .error errors (states.move hplace)
  | @ok e e' _ _ answers states => exact .ok (by rw [show e' = _ from answers]; rfl) states

theorem follows_value : R.Follows Eq value value := by
  refine follows_here_bind fun c d hplace => simulates_after follows_skipTrivia fun _ => ?_
  refine follows_here_bind fun c' d' hplace' => ?_
  refine simulates_ite (by rw [atEnd hplace', sees hplace']) ?_ ?_
  · exact simulates_after (follows_moveTo hplace) fun _ => simulates_pure rfl
  · refine follows_orElse (follows_asExpression hplace') ?_
    exact follows_map Selector.follows_groupText fun _ _ h => congrArg some h

end Directive

/-! ### Statements with blocks -/

section
variable {block block' : Production (List Node)} (hblock : R.Follows R.SameNodes block block')
include hblock

namespace Directive

open Grammar.Directive

theorem follows_definition {l l' : Nat} (hline : l' = l + R.lines) :
    R.Follows R.SameNode (definition block l) (definition block' l') := by
  refine simulates_after follows_skipTrivia fun _ =>
    simulates_after follows_identifier fun name => ?_
  refine simulates_after follows_skipTrivia fun _ => simulates_after (follows_sees _) fun _ => ?_
  have hrest : ∀ ps qs : List Parameter, qs = ps.map (Parameter.transport R.move R.lines) →
      R.Follows R.SameNode (do
        let _ ← skipTrivia
        return ⟨.definition ⟨name, ps⟩, l, ← block⟩) (do
        let _ ← skipTrivia
        return ⟨.definition ⟨name, qs⟩, l', ← block'⟩) := by
    intro ps qs hps
    refine simulates_after follows_skipTrivia fun _ => simulates_bind hblock fun ns ms hns => ?_
    exact simulates_pure (sameNode_node (by rw [hps]; rfl) hline hns)
  refine simulates_ite Iff.rfl (simulates_bind (follows_list follows_parameter) hrest) ?_
  exact hrest [] [] rfl

/-- Where no `@else` comes next both productions go back to behind the block before. -/
theorem follows_alternative :
    R.Follows (fun r r' => r' = (r.1.map (Alternative.transport R.move R.lines), r.2))
      (alternative block) (alternative block') := by
  refine follows_here_bind fun c d hplace => simulates_after follows_skipTrivia fun _ => ?_
  refine follows_here_bind fun c' d' hplace' => simulates_after (follows_keyword _) fun _ => ?_
  refine simulates_ite Iff.rfl ?_ ?_
  · have hrest : ∀ condition condition' : Option Expression,
        condition' = condition.map (Expression.transport R.move R.lines) →
        R.Follows (fun r r' => r' = (r.1.map (Alternative.transport R.move R.lines), r.2)) (do
          let _ ← skipTrivia
          let children ← block
          return ([(⟨condition, c'.line, children⟩ : Alternative)],
            if condition.isSome then some () else none)) (do
          let _ ← skipTrivia
          let children ← block'
          return ([(⟨condition', d'.line, children⟩ : Alternative)],
            if condition'.isSome then some () else none)) := by
      intro condition condition' hcondition
      refine simulates_after follows_skipTrivia fun _ => simulates_bind hblock fun ns ms hns => ?_
      refine simulates_pure ?_
      rw [hcondition, line hplace', show ms = _ from hns, Option.isSome_map]
      rfl
    refine simulates_after follows_skipTrivia fun _ =>
      simulates_after (follows_keyword _) fun _ => ?_
    refine simulates_ite Iff.rfl (simulates_bind (follows_some_expression _) hrest) ?_
    exact hrest none none rfl
  · exact simulates_after (follows_moveTo hplace) fun _ => simulates_pure rfl

/-- The branches behind a branch are found in as many rounds in both texts. -/
theorem follows_branch {l l' : Nat} (hline : l' = l + R.lines) :
    R.Follows R.SameNode (branch block l) (branch block' l') := by
  refine simulates_bind (follows_expression _) fun e e' he => ?_
  refine simulates_after follows_skipTrivia fun _ => simulates_bind hblock fun ns ms hns => ?_
  refine simulates_bind (follows_unfold (fun _ => follows_alternative hblock) ())
    fun as bs has => ?_
  refine simulates_pure (sameNode_node ?_ hline hns)
  rw [has, chain_transport, NodeKind.transport_branch, show e' = _ from he]
  rfl

theorem follows_loop {l l' : Nat} (hline : l' = l + R.lines) :
    R.Follows R.SameNode (loop block l) (loop block' l') := by
  refine simulates_bind (follows_expression _) fun e e' he => ?_
  refine simulates_after follows_skipTrivia fun _ => simulates_bind hblock fun ns ms hns => ?_
  exact simulates_pure (sameNode_node (by rw [show e' = _ from he]; rfl) hline hns)

theorem follows_atRule (name : Text) {l l' : Nat} (hline : l' = l + R.lines) :
    R.Follows R.SameNode (atRule block name l) (atRule block' name l') := by
  refine simulates_after follows_value fun value => follows_here_bind fun c d hplace => ?_
  refine simulates_after follows_skipTrivia fun _ => simulates_after (follows_sees _) fun _ => ?_
  refine simulates_ite Iff.rfl (simulates_bind hblock fun ns ms hns => ?_) ?_
  · exact simulates_pure (sameNode_node rfl hline hns)
  · exact simulates_after (follows_moveTo hplace) fun _ => simulates_pure (sameNode_leaf rfl hline)

end Directive

/-- The name of a directive decides in both texts how it goes on. An `@else` without an `@if` is an
error in both. -/
theorem follows_directive : R.Follows R.SameNode (directive block) (directive block') := by
  refine follows_here_bind fun c d hplace => simulates_after (follows_expect _) fun _ => ?_
  have hline := line hplace
  refine simulates_after follows_identifier fun name => ?_
  split
  · exact Directive.follows_definition hblock hline
  · exact Directive.follows_inclusion hline
  · exact Directive.follows_branch hblock hline
  · rw [hline]
    exact simulates_throw (R.stray _)
  · exact Directive.follows_loop hblock hline
  · refine simulates_bind (follows_expression _) fun e e' he => simulates_pure ?_
    exact sameNode_leaf (by rw [show e' = _ from he]; rfl) hline
  · refine simulates_bind (follows_expression _) fun e e' he => simulates_pure ?_
    exact sameNode_leaf (by rw [show e' = _ from he]; rfl) hline
  · exact Directive.follows_atRule hblock name hline

/-- Whether a block may follow was seen behind the colon, before the value was read. -/
theorem follows_declarationValue (name : Text) {l l' : Nat} (hline : l' = l + R.lines)
    (spaced : Bool) :
    R.Follows R.SameNode (declarationValue block name l spaced)
      (declarationValue block' name l' spaced) := by
  have hrest : ∀ value value' : Option Expression,
      value' = value.map (Expression.transport R.move R.lines) →
      R.Follows R.SameNode (do
        let important ← flag .important
        let behind ← here
        let _ ← skipTrivia
        if ← Grammar.sees (char '{') then
          unless spaced do
            fail "\";\""
          return ⟨.property name value important, l, ← block⟩
        else
          moveTo behind
          return .leaf (.property name value important) l) (do
        let important ← flag .important
        let behind ← here
        let _ ← skipTrivia
        if ← Grammar.sees (char '{') then
          unless spaced do
            fail "\";\""
          return ⟨.property name value' important, l', ← block'⟩
        else
          moveTo behind
          return .leaf (.property name value' important) l') := by
    intro value value' hvalue
    have hkind : ∀ important, NodeKind.property name value' important =
        (NodeKind.property name value important).transport R.move R.lines := by
      intro important
      rw [hvalue]
      rfl
    refine simulates_after (follows_flag _) fun important => follows_here_bind fun c d hplace => ?_
    refine simulates_after follows_skipTrivia fun _ => simulates_after (follows_sees _) fun _ => ?_
    refine simulates_ite Iff.rfl (follows_check Iff.rfl _ ?_) ?_
    · refine simulates_bind hblock fun ns ms hns => simulates_pure ?_
      exact sameNode_node (hkind important) hline hns
    · refine simulates_after (follows_moveTo hplace) fun _ => simulates_pure ?_
      exact sameNode_leaf (hkind important) hline
  refine simulates_after (follows_andM (simulates_pure rfl) (follows_sees _)) fun _ => ?_
  refine simulates_ite Iff.rfl (hrest none none rfl) ?_
  exact simulates_bind (follows_some_expression _) hrest

/-- The attempt at a declaration is committed by the same signs in both texts. -/
theorem follows_declaration : R.Attempts R.SameNode (declaration block) (declaration block') := by
  have hstart : R.Follows R.place here here :=
    follows_here_bind fun _ _ hplace => simulates_pure hplace
  refine simulates_bind (follows_during _ hstart) fun c d hplace => ?_
  refine simulates_after (follows_during _ (follows_passes _)) fun marked => ?_
  refine simulates_after (follows_during _ ?_) fun name => ?_
  · refine simulates_after follows_propertyName fun _ => follows_here_bind fun c' d' hplace' => ?_
    refine simulates_after follows_skipTrivia fun _ =>
      simulates_after (follows_expect _) fun _ => ?_
    exact simulates_pure (R.textSince hplace hplace').symm
  · refine simulates_after (follows_during _ follows_skipTrivia) fun spaced => ?_
    refine simulates_after (follows_during _ (follows_sees _)) fun named => ?_
    exact follows_during _ (follows_declarationValue hblock name (line hplace) spaced)

theorem follows_ruleset : R.Follows R.SameNode (ruleset block) (ruleset block') := by
  refine follows_here_bind fun c d hplace =>
    simulates_after Selector.follows_groupText fun text => ?_
  refine simulates_after follows_skipTrivia fun _ => simulates_bind hblock fun ns ms hns => ?_
  exact simulates_pure (sameNode_node rfl (line hplace) hns)

/-- **An attempt that is given up is given up in both texts**, and the statement is read again from
places that look alike. -/
theorem follows_declarationOrRuleset :
    R.Follows R.SameNode (declarationOrRuleset block) (declarationOrRuleset block') := by
  intro s t hs
  have hrun := follows_declaration hblock s t hs
  unfold declarationOrRuleset
  generalize declaration block s = r, declaration block' t = r' at hrun ⊢
  cases hrun with
  | @ok n m s' t' answers states =>
    simp only [states.atEndOfDeclaration]
    by_cases hend : s'.atEndOfDeclaration = true
    · simp only [if_pos hend]
      exact .ok answers states
    · simp only [if_neg hend]
      exact follows_ruleset hblock _ _ (hs.giveUp states)
  | @error e e' s' t' errors states =>
    -- Both attempts were committed or neither, so the same one of the two errors is reported.
    have hretry := follows_ruleset hblock _ _ (hs.giveUp states)
    simp only
    generalize ruleset block (s'.giveUp s) = r, ruleset block' (t'.giveUp t) = r' at hretry ⊢
    cases hretry with
    | ok answers states => exact .ok answers states
    | error errors' states =>
      refine .error ?_ states
      rw [errors.1]
      cases e.committed with
      | true => exact errors.2
      | false => exact errors'

theorem follows_statement : R.Follows R.SameNode (statement block) (statement block') := by
  refine simulates_after (follows_sees _) fun _ => simulates_ite Iff.rfl follows_assignment ?_
  refine simulates_after (follows_sees _) fun _ => ?_
  exact simulates_ite Iff.rfl (follows_directive hblock) (follows_declarationOrRuleset hblock)

/-- One round of a list of statements. A statement that ended with a block needs no semicolon, and
both states know whether it did. -/
theorem follows_listStep (nested : Bool) :
    R.Follows (fun r r' => r' = (r.1.map (Node.transport R.move R.lines), r.2))
      (listStep block nested) (listStep block' nested) := by
  refine simulates_after (follows_passes _) fun _ =>
    simulates_after (follows_listEnds _) fun _ => ?_
  refine simulates_ite Iff.rfl (simulates_pure rfl) (simulates_after (follows_passes _) fun _ => ?_)
  refine simulates_ite Iff.rfl (simulates_pure rfl) (simulates_bind follows_comment ?_)
  rintro n _ rfl
  cases n with
  | some n => exact simulates_pure rfl
  | none =>
    refine simulates_bind (follows_statement hblock) fun n m hnode => ?_
    have hanswer : R.Follows (fun r r' => r' = (r.1.map (Node.transport R.move R.lines), r.2))
        (pure ([n], some ()) : Production (List Node × Option Unit)) (pure ([m], some ())) :=
      simulates_pure (by rw [show m = _ from hnode]; rfl)
    refine simulates_get_bind fun s t hs => simulates_ite (by rw [hs.atBlockEnd]) hanswer ?_
    refine simulates_after follows_skipTrivia fun _ => ?_
    refine simulates_after (follows_orM (follows_passes _) (follows_listEnds _)) fun _ => ?_
    exact follows_check Iff.rfl _ hanswer

theorem follows_statements (nested : Bool) :
    R.Follows R.SameNodes (statements block nested) (statements block' nested) :=
  follows_unfold (fun _ => follows_listStep hblock nested) ()

theorem follows_blockBy : R.Follows R.SameNodes (blockBy block) (blockBy block') := by
  refine simulates_after (follows_expect _) fun _ => ?_
  refine simulates_bind (follows_statements hblock true) fun ns ms hns => ?_
  refine simulates_after (follows_expect _) fun _ => ?_
  refine simulates_after (simulates_modify fun s t hs => ?_) fun _ => simulates_pure hns
  -- The end of a block is remembered as a number of bytes, which is further on in the second text.
  refine { hs with blockEnd := .inl ?_ }
  show some t.cursor.offset = _
  rw [offset hs.cursor]
  rfl

end

/-- **Blocks that look alike are read alike.** -/
theorem follows_block : R.Follows R.SameNodes block block :=
  simulates_recurse size_of_sameState (follows_fail _) fun _ _ => follows_blockBy

end Replica
end Stylesheet
