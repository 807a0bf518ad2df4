import Stylesheet.Proofs.ByteLexer
import Stylesheet.Proofs.SpacedColon

/-!
# Productions by their bytes

The productions that read no blocks, with every place found by bytes and everything checked that a
place by characters has for nothing: that the text from here on and the text since an earlier place
are slices, that whatever is passed ends between two characters, and that the place that is gone
back to lies behind this one (`ByteGrammar.rewind`).  An expression is the slice from its start up
to where the last of its tokens ends, which is a place of another lexer.

From a state whose cursor stands ahead of a place (`ByteGrammar.Ahead`), they do what the
productions by characters do.  A production that keeps the place where it starts runs ahead of that
place from then on (`ByteGrammar.agrees_here_bind`), so it may go back to it.
-/
namespace Stylesheet

open Grammar (State Production Stop Nesting)

theorem Grammar.here_apply (s : State) : Grammar.here s = .ok s.cursor s := rfl

/-- A part of a stylesheet, read by bytes. -/
abbrev ByteProduction := EStateM (Fault SyntaxError) State

namespace ByteGrammar

open Grammar (char bangName?)

/-! ### The smallest productions -/

/-- The place of the cursor. -/
def here : ByteProduction Cursor :=
  return (← get).cursor

/-- The text that is left. -/
def rest : ByteProduction Text := do
  demand (← here).rest?

/-- The text since an earlier place. -/
def since (start : Cursor) : ByteProduction Text := do
  demand ((← here).sliceSince? start.offset)

/-- Passes a number of bytes, and answers their text. -/
def advance (n : Nat) : ByteProduction Text := do
  let (t, c) ← demand ((← here).advanceBy? n)
  modify fun s => { s with cursor := c }
  return t

/-- Goes back to an earlier place. -/
def rewind (c : Cursor) : ByteProduction Unit := do
  let c ← demand ((← here).rewind? c)
  modify fun s => { s with cursor := c }

/-- Fails, saying what was expected here. -/
def fail {α : Type} (expected : String) : ByteProduction α := do
  throw (.error (← demand ((← here).unexpected? expected)))

/-- Whether a form of text comes next. -/
def sees (form : Recognizer) : ByteProduction Bool :=
  return (form (← rest)).isSome

/-- Passes a form of text if it comes next, and answers the text. -/
def take? (form : Recognizer) : ByteProduction (Option Text) := do
  let t ← rest
  match form t with
  | none => return none
  | some n => some <$> advance (Text.byteLength (t.take n))

/-- Passes a form of text if it comes next, and answers whether it did. -/
def passes (form : Recognizer) : ByteProduction Bool :=
  return (← take? form).isSome

/-- Passes a character that has to come next. -/
def expect (x : Char) : ByteProduction Unit := do
  unless ← passes (char x) do
    fail ("\"" ++ String.singleton x ++ "\"")

/-- Passes white space and comments, and answers whether there were any. -/
def skipTrivia : ByteProduction Bool :=
  passes Recognizer.trivia

/-- An identifier, as it is written. -/
def identifier : ByteProduction Text := do
  match ← take? Recognizer.identifier with
  | some name => return name
  | none => fail "identifier"

/-- A variable, by its name. -/
def variableName : ByteProduction Text := do
  match ← take? ((char '$').andThen Recognizer.identifier) with
  | some text => return Text.unescape (text.drop 1)
  | none => fail "variable"

/-- Passes a word that comes next and that nothing continues. -/
def keyword (word : String) : ByteProduction Bool :=
  passes ((Recognizer.literal word.toList).notBefore isNameChar)

/-! ### Lexers and expressions -/

/-- Runs a lexer from here, and goes on from where it stops, before a token that it only looked
at. -/
def lexing {α : Type} (reading : ByteLexM α) : ByteProduction (α × Lexer) := fun s =>
  match reading (.ofCursor s.cursor s.options) with
  | .error e _ => .error e s
  | .ok a l =>
    match ByteLexer.unconsume l with
    | .error e _ => .error e s
    | .ok _ m => .ok (a, l) { s with cursor := m.cursor, warnings := s.warnings ++ l.warnings }

/-- Passes an interpolation if one comes next, and answers whether it did. -/
def interpolation : ByteProduction Bool := do
  if ← sees (Recognizer.literal ['#', '{']) then
    let _ ← advance 2
    let _ ← lexing ByteLexer.interpolation
    return true
  else
    return false

/-- An expression, behind white space and comments. -/
def expression (stop : Stop) : ByteProduction Expression := do
  let _ ← skipTrivia
  let start ← here
  let (tokens, lexer) ← lexing (ByteLexer.collectUntil (Nesting.after stop) {})
  if tokens.isEmpty then
    fail "expression"
  let text ← demand (start.source.sliceBytes? start.offset lexer.previousEnd.offset)
  return ⟨text, tokens, start.line⟩

/-- Passes a flag if it comes next, and answers whether it did. -/
def flag (f : Flag) : ByteProduction Bool := do
  let start ← here
  let _ ← skipTrivia
  let t ← rest
  match bangName? t with
  | some (name, n) =>
    if name.equalIgnoringCase f.word then
      let _ ← advance (Text.byteLength (t.take n))
      return true
    else
      rewind start
      return false
  | none =>
    rewind start
    return false

/-! ### Selectors -/

namespace Selector

open Grammar.Selector (element hashName className attributeOp notHead pseudoMark combinator)

/-- Passes a class if one comes next. -/
def classPiece : ByteProduction Bool := do
  if ← passes className then
    return true
  else if ← sees (Recognizer.literal ['.', '#', '{']) then
    let _ ← advance 1
    interpolation
  else
    return false

/-- Passes an attribute if one comes next. -/
def attributePiece : ByteProduction Bool := do
  unless ← passes (char '[') do
    return false
  let _ ← skipTrivia
  unless ← passes Recognizer.identifier <||> interpolation do
    fail "identifier"
  let _ ← skipTrivia
  if ← passes attributeOp then
    let _ ← skipTrivia
    unless ← passes (Recognizer.identifier.orElse Recognizer.quoted) <||> interpolation do
      fail "identifier or string"
    let _ ← skipTrivia
  expect ']'
  return true

/-- Passes a negation of a sequence if one comes next. -/
def negationPiece (sequence : ByteProduction Bool) : ByteProduction Bool := do
  unless ← passes notHead do
    return false
  let _ ← skipTrivia
  unless ← sequence do
    fail "selector"
  let _ ← skipTrivia
  expect ')'
  return true

/-- The argument of a pseudo-class, up to its closing parenthesis. -/
def argument : ByteProduction Bool := do
  match ← demand (← rest).balancedBytes? with
  | none => fail "\")\""
  | some n =>
    let _ ← advance n
    return true

/-- Passes a pseudo-class or pseudo-element if one comes next. -/
def pseudoPiece : ByteProduction Bool := do
  let start ← here
  unless ← passes pseudoMark do
    return false
  unless ← passes Recognizer.identifier <||> interpolation do
    rewind start
    return false
  if ← passes (char '(') then
    argument
  else
    return true

/-- Passes a piece of a sequence if one comes next. -/
def piece (sequence : ByteProduction Bool) : ByteProduction Bool :=
  passes (element.orElse (hashName.orElse (char '&'))) <||> classPiece <||>
    attributePiece <||> negationPiece sequence <||> pseudoPiece <||> interpolation

/-- Passes a run of expression tokens up to the next operator, if it is not empty. -/
def run : ByteProduction Bool := fun s =>
  match lexing (ByteLexer.takeUntil Token.isOperator) s with
  | .ok (tokens, _) t => if tokens.isEmpty then .ok false s else .ok true t
  | .error (.error _) _ => .ok false s
  | .error .panic t => .error .panic t

/-- Passes a sequence if one comes next, where negations hold sequences by the rule given. -/
def sequenceBy (sequence : ByteProduction Bool) : ByteProduction Bool := do
  let start ← here
  repeatWhile State.size (piece sequence)
  if start.offset < (← here).offset then
    return true
  else
    run

/-- Passes a sequence of pieces if one comes next. -/
def sequence : ByteProduction Bool :=
  recurse State.size (fail "selector") sequenceBy

/-- Passes a combinator and the sequence behind it, or just a sequence behind white space. -/
def continuation : ByteProduction Bool := do
  let start ← here
  let _ ← skipTrivia
  let combined ← passes combinator
  let _ ← skipTrivia
  if ← sequence then
    return true
  else if combined then
    fail "selector"
  else
    rewind start
    return false

/-- Sequences with combinators between them and perhaps before them. -/
def selector : ByteProduction Unit := do
  if ← passes combinator then
    let _ ← skipTrivia
  unless ← sequence do
    fail "selector"
  repeatWhile State.size continuation

/-- Passes a comma and the selector behind it, if a comma comes next. -/
def alternative : ByteProduction Bool := do
  let start ← here
  let _ ← skipTrivia
  if ← passes (char ',') then
    let _ ← skipTrivia
    selector
    return true
  else
    rewind start
    return false

/-- Selectors with commas between them. -/
def group : ByteProduction Unit := do
  selector
  repeatWhile State.size alternative

/-- The text of a group of selectors. -/
def groupText : ByteProduction Text := do
  let start ← here
  group
  return (← since start).trim

end Selector

/-! ### States ahead of a place -/

/-- The cursor of a state is ahead of a place where a cursor may stand. -/
structure Ahead (c : Cursor) (s : State) : Prop where
  sited : c.Sited
  ahead : c.Before s.cursor

section
variable {ε α β : Type} {c d : Cursor} {s : State}

theorem Ahead.stands (h : Ahead c s) : s.cursor.Sited :=
  h.sited.before h.ahead

theorem Ahead.move (h : Ahead c s) (hd : c.Before d) : Ahead c { s with cursor := d } :=
  ⟨h.sited, hd⟩

/-- A state is ahead of its own place. -/
theorem Ahead.here (h : Ahead c s) : Ahead s.cursor s :=
  ⟨h.stands, .refl _⟩

/-- What runs ahead of a place runs ahead of every place before it. -/
theorem matched_earlier {r : EStateM.Result ε State α} {r' : EStateM.Result (Fault ε) State α}
    (hsited : c.Sited) (hd : c.Before d) (h : Matched (InStep (Ahead d)) Eq Raised r r') :
    Matched (InStep (Ahead c)) Eq Raised r r' :=
  h.mono (fun _ _ => id) fun _ _ hs => ⟨hs.same, hsited, hd.trans hs.good.ahead⟩

/-- What follows at the place where it starts may go back to there. -/
theorem agrees_here_bind {f : Cursor → Production β} {g : Cursor → ByteProduction β}
    (h : ∀ d, c.Before d → Agrees (Ahead d) (f d) (g d)) :
    Agrees (Ahead c) (Grammar.here >>= f) (here >>= g) := by
  refine agrees_of_runs fun s hs => ?_
  exact matched_earlier hs.sited hs.ahead ((h s.cursor hs.ahead).matched hs.here)

/-- The same, where nothing goes back to the place. -/
theorem agrees_place_bind {f : Cursor → Production β} {g : Cursor → ByteProduction β}
    (h : ∀ d, c.Before d → Agrees (Ahead c) (f d) (g d)) :
    Agrees (Ahead c) (Grammar.here >>= f) (here >>= g) :=
  agrees_of_runs fun s hs => (h s.cursor hs.ahead).matched hs

end

/-! ### Single steps -/

theorem here_apply (s : State) : here s = .ok s.cursor s := rfl

section
variable {s : State} (h : s.cursor.Sited)
include h

theorem rest_apply : rest s = .ok s.cursor.rest s := by
  unfold rest
  rw [bind_apply]
  show demand s.cursor.rest? s = _
  rw [h.rest?_eq]
  rfl

theorem advance_apply (n : Nat) :
    advance (Text.byteLength (s.cursor.rest.take n)) s =
      .ok (s.cursor.rest.take n) { s with cursor := s.cursor.advance n } := by
  unfold advance
  rw [bind_apply]
  show (demand (s.cursor.advanceBy? _) >>= _) s = _
  rw [h.advanceBy?_take]
  rfl

theorem fail_apply {α : Type} (expected : String) :
    (fail expected : ByteProduction α) s = .error (.error (s.cursor.unexpected expected)) s := by
  unfold fail
  rw [bind_apply]
  show (demand (s.cursor.unexpected? expected) >>= _) s = _
  rw [h.unexpected?_eq]
  rfl

theorem take?_apply (form : Recognizer) :
    take? form s =
      match form s.cursor.rest with
      | none => .ok none s
      | some n => .ok (some (s.cursor.rest.take n)) { s with cursor := s.cursor.advance n } := by
  unfold take?
  rw [bind_apply, rest_apply h]
  simp only
  cases form s.cursor.rest with
  | none => rfl
  | some n => simp only [map_apply, advance_apply h]

theorem sees_apply (form : Recognizer) : sees form s = .ok (form s.cursor.rest).isSome s := by
  unfold sees
  rw [bind_apply, rest_apply h]
  rfl

/-- Where a word comes next, the bytes of its first part are passed with the characters of that
part. -/
theorem advance_of_literal (front back : Text) {n : Nat}
    (hword : Recognizer.literal (front ++ back) s.cursor.rest = some n) :
    advance front.byteLength s = .ok front { s with cursor := s.cursor.advance front.length } := by
  obtain ⟨⟨u, hrest⟩, -⟩ := Recognizer.literal_eq_some.mp hword
  have htake : s.cursor.rest.take front.length = front := by
    rw [← hrest, List.append_assoc, List.take_left]
  have hadvance := advance_apply h front.length
  rwa [htake] at hadvance

end

theorem rewind_apply {c : Cursor} {s : State} (h : c.Before s.cursor) :
    rewind c s = .ok () { s with cursor := c } := by
  unfold rewind
  rw [bind_apply]
  show (demand (s.cursor.rewind? c) >>= _) s = _
  rw [h.rewind?]
  rfl

/-! ### Agreement of the smallest productions -/

section
variable {α β : Type} {c : Cursor}

theorem agrees_rest_bind {f : Text → Production β} {g : Text → ByteProduction β}
    (h : ∀ t, Agrees (Ahead c) (f t) (g t)) :
    Agrees (Ahead c) (Grammar.here >>= fun d => f d.rest) (rest >>= g) := by
  refine agrees_of_runs fun s hs => ?_
  rw [bind_apply, bind_apply, rest_apply hs.stands]
  exact (h _).matched hs

theorem agrees_since_bind {f : Text → Production β} {g : Text → ByteProduction β}
    (h : ∀ t, Agrees (Ahead c) (f t) (g t)) :
    Agrees (Ahead c) (Grammar.here >>= fun d => f (d.textSince c)) (since c >>= g) := by
  refine agrees_of_runs fun s hs => ?_
  have hsince : since c s = .ok (s.cursor.textSince c) s := by
    unfold since
    rw [bind_apply]
    show demand (s.cursor.sliceSince? c.offset) s = _
    rw [hs.sited.sliceSince?_eq hs.ahead]
    rfl
  rw [bind_apply, bind_apply, hsince]
  exact (h _).matched hs

theorem agrees_rewind : Agrees (Ahead c) (Grammar.moveTo c) (rewind c) := by
  refine agrees_of_runs fun s hs => ?_
  rw [rewind_apply hs.ahead]
  exact matched_ok (hs.move (.refl c))

theorem agrees_fail (expected : String) :
    Agrees (Ahead c) (Grammar.fail expected : Production α) (fail expected) := by
  refine agrees_of_runs fun s hs => ?_
  rw [fail_apply hs.stands]
  exact matched_error hs

/-- What follows a check agrees where the check does not fail. -/
theorem agrees_check {P : Prop} [Decidable P] {f : Unit → Production α}
    {g : Unit → ByteProduction α} (expected : String) (h : Agrees (Ahead c) (f ()) (g ())) :
    Agrees (Ahead c) (if P then f () else Grammar.fail expected >>= f)
      (if P then g () else fail expected >>= g) :=
  simulates_ite Iff.rfl h (simulates_after (agrees_fail expected) fun _ => h)

theorem agrees_sees (form : Recognizer) : Agrees (Ahead c) (Grammar.sees form) (sees form) :=
  agrees_rest_bind (f := fun t => pure (form t).isSome) fun _ => simulates_pure rfl

theorem agrees_take? (form : Recognizer) : Agrees (Ahead c) (Grammar.take? form) (take? form) := by
  refine agrees_of_runs fun s hs => ?_
  rw [Grammar.take?_apply, take?_apply hs.stands]
  cases form s.cursor.rest with
  | none => exact matched_ok hs
  | some n => exact matched_ok (hs.move (hs.ahead.advance n))

theorem agrees_passes (form : Recognizer) : Agrees (Ahead c) (Grammar.passes form) (passes form) :=
  simulates_after (agrees_take? form) fun _ => simulates_pure rfl

theorem agrees_expect (x : Char) : Agrees (Ahead c) (Grammar.expect x) (expect x) :=
  simulates_after (agrees_passes _) fun _ =>
    simulates_ite Iff.rfl (simulates_pure rfl) (agrees_fail _)

theorem agrees_skipTrivia : Agrees (Ahead c) Grammar.skipTrivia skipTrivia :=
  agrees_passes _

theorem agrees_identifier : Agrees (Ahead c) Grammar.identifier identifier := by
  refine simulates_after (agrees_take? _) fun name => ?_
  cases name with
  | some name => exact simulates_pure rfl
  | none => exact agrees_fail _

theorem agrees_variableName : Agrees (Ahead c) Grammar.variableName variableName := by
  refine simulates_after (agrees_take? _) fun name => ?_
  cases name with
  | some name => exact simulates_pure rfl
  | none => exact agrees_fail _

theorem agrees_keyword (word : String) : Agrees (Ahead c) (Grammar.keyword word) (keyword word) :=
  agrees_passes _

/-! ### Putting productions together -/

theorem agrees_orM {p p' : Production Bool} {q q' : ByteProduction Bool} (hp : Agrees (Ahead c) p q)
    (hp' : Agrees (Ahead c) p' q') : Agrees (Ahead c) (p <||> p') (q <||> q') := by
  refine simulates_after hp fun a => ?_
  cases a with
  | true => exact simulates_pure rfl
  | false => exact hp'

theorem agrees_andM {p p' : Production Bool} {q q' : ByteProduction Bool}
    (hp : Agrees (Ahead c) p q) (hp' : Agrees (Ahead c) p' q') :
    Agrees (Ahead c) (p <&&> p') (q <&&> q') := by
  refine simulates_after hp fun a => ?_
  cases a with
  | true => exact hp'
  | false => exact simulates_pure rfl

theorem agrees_repeatWhile {step : Production Bool} {step' : ByteProduction Bool}
    (h : Agrees (Ahead c) step step') :
    Agrees (Ahead c) (repeatWhile State.size step) (repeatWhile State.size step') := by
  refine simulates_after (agrees_unfold (fun _ => ?_) ()) fun _ => simulates_pure rfl
  exact simulates_after h fun _ => simulates_pure rfl

/-- Rules that use themselves, if they agree ahead of every place whenever what they use does. -/
theorem agrees_recurse {stuck : Production α} {stuck' : ByteProduction α}
    {rule : Production α → Production α} {rule' : ByteProduction α → ByteProduction α}
    (hstuck : ∀ c, Agrees (Ahead c) stuck stuck')
    (hrule : ∀ p q, (∀ c, Agrees (Ahead c) p q) → ∀ c, Agrees (Ahead c) (rule p) (rule' q)) :
    Agrees (Ahead c) (recurse State.size stuck rule) (recurse State.size stuck' rule') := by
  refine agrees_of_runs fun s hs => ?_
  induction hn : s.size using Nat.strongRecOn generalizing c s with
  | ind n ih =>
    rw [recurse_apply, recurse_apply]
    refine (hrule _ _ (fun d => agrees_of_runs fun u hu => ?_) c).matched hs
    by_cases hlt : u.size < s.size
    · simp only [if_pos hlt]
      exact ih u.size (hn ▸ hlt) u hu rfl
    · simp only [if_neg hlt]
      exact (hstuck d).matched hu

/-! ### Lexers and expressions -/

/-- A lexer that starts here leads to the same state by bytes, and its last token ends ahead of
here. -/
theorem simulates_lexing {reading : LexM α} {reading' : ByteLexM α}
    (h : Agrees (Lexer.Ranged c) reading reading') :
    Simulates (InStep (Ahead c)) (fun r r' => r' = r ∧ c.Before r.2.previousEnd) Raised
      (Grammar.lexing reading) (lexing reading') := by
  rintro _ s ⟨rfl, hs⟩
  have hstart : (Lexer.ofCursor s.cursor s.options).Ranged c :=
    .ofCursor hs.sited hs.ahead s.options
  unfold Grammar.lexing lexing
  rcases h.runs hstart with ⟨a, l, hp, hq, hl⟩ | ⟨e, l, hp, hq, -⟩
  · have hback := ByteLexer.unconsume_apply fun ahead hview => (hl.lookahead ahead hview).2
    simp only [hp, hq, hback]
    exact .ok ⟨rfl, hl.previousEnd⟩ ⟨rfl, hs.sited, hl.unconsume.cursor⟩
  · simp only [hp, hq]
    exact .error rfl ⟨rfl, hs⟩

theorem agrees_lexing {reading : LexM α} {reading' : ByteLexM α}
    (h : Agrees (Lexer.Ranged c) reading reading') :
    Agrees (Ahead c) (Grammar.lexing reading) (lexing reading') := by
  intro s t hs
  exact (simulates_lexing h s t hs).mono (fun _ _ hanswer => hanswer.1.symm) fun _ _ => id

theorem agrees_interpolation : Agrees (Ahead c) Grammar.interpolation interpolation := by
  have hlexing : Agrees (Ahead c) (do let _ ← Grammar.lexing Lexer.interpolation; return true)
      (do let _ ← lexing ByteLexer.interpolation; return true) :=
    simulates_after (agrees_lexing ByteLexer.agrees_interpolation) fun _ => simulates_pure rfl
  refine agrees_of_runs fun s hs => ?_
  unfold Grammar.interpolation interpolation
  rw [bind_apply, bind_apply, sees_apply hs.stands]
  cases hfound : Recognizer.literal ['#', '{'] s.cursor.rest with
  | none =>
    rw [Grammar.passes_of_none hfound]
    exact matched_ok hs
  | some n =>
    have hadvance := advance_of_literal hs.stands ['#', '{'] [] hfound
    obtain rfl := (Recognizer.literal_eq_some.mp hfound).2
    rw [Grammar.passes_of_some hfound]
    simp only [Option.isSome_some, if_true]
    rw [bind_apply (advance 2), show advance 2 s = _ from hadvance]
    exact hlexing.matched (hs.move (hs.ahead.advance 2))

theorem agrees_expression (stop : Stop) :
    Agrees (Ahead c) (Grammar.expression stop) (expression stop) := by
  refine simulates_after agrees_skipTrivia fun _ => agrees_here_bind fun d _ => ?_
  have hcollect : Agrees (Lexer.Ranged d) (Lexer.collectUntil (Nesting.after stop) {})
      (ByteLexer.collectUntil (Nesting.after stop) {}) :=
    ByteLexer.agrees_collectUntil ByteLexer.agrees_interpolation (Nesting.after stop) {}
  refine simulates_bind (simulates_lexing hcollect) ?_
  rintro ⟨ts, l⟩ _ ⟨rfl, hend⟩
  have hanswer :
      Agrees (Ahead d) (pure ⟨l.previousEnd.textSince d, ts, d.line⟩ : Production Expression) (do
      let text ← demand (d.source.sliceBytes? d.offset l.previousEnd.offset)
      return ⟨text, ts, d.line⟩) := by
    refine agrees_of_runs fun s hs => ?_
    rw [hs.sited.slice_between hend]
    exact matched_ok hs
  exact simulates_ite Iff.rfl (simulates_after (agrees_fail _) fun _ => hanswer) hanswer

theorem agrees_flag (f : Flag) : Agrees (Ahead c) (Grammar.flag f) (flag f) := by
  refine agrees_here_bind fun d _ => simulates_after agrees_skipTrivia fun _ =>
    agrees_of_runs fun s hs => ?_
  have hback : Agrees (Ahead d) (do Grammar.moveTo d; return false) (do rewind d; return false) :=
    simulates_after agrees_rewind fun _ => simulates_pure rfl
  rw [bind_apply, bind_apply, Grammar.here_apply, rest_apply hs.stands]
  simp only
  cases bangName? s.cursor.rest with
  | none => exact hback.matched hs
  | some found =>
    obtain ⟨name, n⟩ := found
    by_cases hword : name.equalIgnoringCase f.word = true
    · simp only [if_pos hword]
      rw [bind_apply, bind_apply, advance_apply hs.stands]
      exact matched_ok (hs.move (hs.ahead.advance n))
    · simp only [if_neg hword]
      exact hback.matched hs

end

/-! ### Selectors -/

namespace Selector

section
variable {c : Cursor}

theorem agrees_classPiece : Agrees (Ahead c) Grammar.Selector.classPiece classPiece := by
  refine simulates_after (agrees_passes _) fun _ => simulates_ite Iff.rfl (simulates_pure rfl) ?_
  refine agrees_of_runs fun s hs => ?_
  rw [bind_apply, bind_apply, sees_apply hs.stands, Grammar.sees_apply]
  cases hfound : Recognizer.literal ['.', '#', '{'] s.cursor.rest with
  | none => exact matched_ok hs
  | some n =>
    have hadvance := advance_of_literal hs.stands ['.'] ['#', '{'] hfound
    have hdot : char '.' s.cursor.rest = some 1 := by
      obtain ⟨⟨u, hrest⟩, -⟩ := Recognizer.literal_eq_some.mp hfound
      rw [← hrest]
      rfl
    simp only [Option.isSome_some, if_true]
    rw [bind_apply, bind_apply, Grammar.passes_of_some hdot, show advance 1 s = _ from hadvance]
    exact agrees_interpolation.matched (hs.move (hs.ahead.advance 1))

theorem agrees_attributePiece :
    Agrees (Ahead c) Grammar.Selector.attributePiece attributePiece := by
  have hclose :
      Agrees (Ahead c) (do Grammar.expect ']'; return true) (do expect ']'; return true) :=
    simulates_after (agrees_expect _) fun _ => simulates_pure rfl
  refine simulates_after (agrees_passes _) fun _ => simulates_ite Iff.rfl ?_ (simulates_pure rfl)
  refine simulates_after agrees_skipTrivia fun _ => ?_
  refine simulates_after (agrees_orM (agrees_passes _) agrees_interpolation) fun _ =>
    agrees_check _ ?_
  refine simulates_after agrees_skipTrivia fun _ => simulates_after (agrees_passes _) fun _ => ?_
  refine simulates_ite Iff.rfl (simulates_after agrees_skipTrivia fun _ => ?_) hclose
  refine simulates_after (agrees_orM (agrees_passes _) agrees_interpolation) fun _ =>
    agrees_check _ ?_
  exact simulates_after agrees_skipTrivia fun _ => hclose

/-- The length of the argument is counted in bytes by a loop of its own. -/
theorem agrees_argument : Agrees (Ahead c) (do
      unless ← Grammar.passes Text.balancedLength? do
        Grammar.fail "\")\""
      return true) argument := by
  refine agrees_of_runs fun s hs => ?_
  unfold argument
  rw [bind_apply, bind_apply, rest_apply hs.stands]
  simp only [Text.balancedBytes?_eq, demand, pure_bind]
  cases hfound : s.cursor.rest.balancedLength? with
  | none =>
    rw [Grammar.passes_of_none hfound]
    simp only [Option.map_none]
    rw [fail_apply hs.stands]
    exact matched_error hs
  | some n =>
    rw [Grammar.passes_of_some hfound]
    simp only [Option.map_some]
    rw [bind_apply (advance _), advance_apply hs.stands]
    exact matched_ok (hs.move (hs.ahead.advance n))

theorem agrees_pseudoPiece : Agrees (Ahead c) Grammar.Selector.pseudoPiece pseudoPiece := by
  refine agrees_here_bind fun d _ => simulates_after (agrees_passes _) fun _ => ?_
  refine simulates_ite Iff.rfl ?_ (simulates_pure rfl)
  refine simulates_after (agrees_orM (agrees_passes _) agrees_interpolation) fun _ => ?_
  refine simulates_ite Iff.rfl ?_ (simulates_after agrees_rewind fun _ => simulates_pure rfl)
  exact simulates_after (agrees_passes _) fun _ =>
    simulates_ite Iff.rfl agrees_argument (simulates_pure rfl)

theorem agrees_run : Agrees (Ahead c) Grammar.Selector.run run := by
  refine agrees_of_runs fun s hs => ?_
  rw [Grammar.Selector.run_apply]
  unfold run
  rcases (agrees_lexing (ByteLexer.agrees_takeUntil Token.isOperator)).runs hs with
    ⟨⟨ts, l⟩, t, hp, hq, ht⟩ | ⟨e, t, hp, hq, -⟩
  · simp only [hp, hq]
    split
    · exact matched_ok hs
    · exact matched_ok ht
  · simp only [hp, hq]
    exact matched_ok hs

section
variable {sequence : Production Bool} {sequence' : ByteProduction Bool}
  (h : ∀ c, Agrees (Ahead c) sequence sequence')
include h

theorem agrees_negationPiece :
    Agrees (Ahead c) (Grammar.Selector.negationPiece sequence) (negationPiece sequence') := by
  refine simulates_after (agrees_passes _) fun _ => simulates_ite Iff.rfl ?_ (simulates_pure rfl)
  refine simulates_after agrees_skipTrivia fun _ => simulates_after (h c) fun _ => agrees_check _ ?_
  refine simulates_after agrees_skipTrivia fun _ => ?_
  exact simulates_after (agrees_expect _) fun _ => simulates_pure rfl

theorem agrees_piece : Agrees (Ahead c) (Grammar.Selector.piece sequence) (piece sequence') :=
  agrees_orM (agrees_passes _) <| agrees_orM agrees_classPiece <|
    agrees_orM agrees_attributePiece <|
    agrees_orM (agrees_negationPiece h) <| agrees_orM agrees_pseudoPiece agrees_interpolation

theorem agrees_sequenceBy :
    Agrees (Ahead c) (Grammar.Selector.sequenceBy sequence) (sequenceBy sequence') := by
  refine agrees_place_bind fun d _ =>
    simulates_after (agrees_repeatWhile (agrees_piece h)) fun _ => ?_
  exact agrees_place_bind fun e _ => simulates_ite Iff.rfl (simulates_pure rfl) agrees_run

end

theorem agrees_sequence : Agrees (Ahead c) Grammar.Selector.sequence sequence :=
  agrees_recurse (fun _ => agrees_fail _) fun _ _ h _ => agrees_sequenceBy h

theorem agrees_continuation : Agrees (Ahead c) Grammar.Selector.continuation continuation := by
  refine agrees_here_bind fun d _ => simulates_after agrees_skipTrivia fun _ => ?_
  refine simulates_after (agrees_passes _) fun _ => simulates_after agrees_skipTrivia fun _ => ?_
  refine simulates_after agrees_sequence fun _ => simulates_ite Iff.rfl (simulates_pure rfl) ?_
  refine simulates_ite Iff.rfl (agrees_fail _) ?_
  exact simulates_after agrees_rewind fun _ => simulates_pure rfl

theorem agrees_selector : Agrees (Ahead c) Grammar.Selector.selector selector := by
  have hrest : Agrees (Ahead c) (do
      unless ← Grammar.Selector.sequence do
        Grammar.fail "selector"
      repeatWhile State.size Grammar.Selector.continuation) (do
      unless ← sequence do
        fail "selector"
      repeatWhile State.size continuation) :=
    simulates_after agrees_sequence fun _ => agrees_check _ (agrees_repeatWhile agrees_continuation)
  refine simulates_after (agrees_passes _) fun _ => simulates_ite Iff.rfl ?_ hrest
  exact simulates_after agrees_skipTrivia fun _ => hrest

theorem agrees_alternative : Agrees (Ahead c) Grammar.Selector.alternative alternative := by
  refine agrees_here_bind fun d _ => simulates_after agrees_skipTrivia fun _ => ?_
  refine simulates_after (agrees_passes _) fun _ => simulates_ite Iff.rfl ?_ ?_
  · refine simulates_after agrees_skipTrivia fun _ => ?_
    exact simulates_after agrees_selector fun _ => simulates_pure rfl
  · exact simulates_after agrees_rewind fun _ => simulates_pure rfl

theorem agrees_groupText : Agrees (Ahead c) Grammar.Selector.groupText groupText := by
  refine agrees_here_bind fun d _ => ?_
  refine simulates_after (p := Grammar.Selector.group) (q := group) ?_ fun _ => ?_
  · exact simulates_after agrees_selector fun _ => agrees_repeatWhile agrees_alternative
  · exact agrees_since_bind (f := fun t => pure t.trim) fun _ => simulates_pure rfl

end
end Selector
end ByteGrammar
end Stylesheet
