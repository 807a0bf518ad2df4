import Stylesheet.Proofs.Lockstep
import Stylesheet.Proofs.Rerun
import Stylesheet.Proofs.Word

/-!
# A space behind the colon

A name, a colon and another name before a brace are the selector of a ruleset, unless there is a
space behind the colon: then they are a property with a nested block.  Both texts are tried as a
declaration first, and the one without the space is given up and read again.  From the brace on the
two runs see the same text, one byte apart, so everything behind it is read alike
(`nested_iff_ruleset`).
-/
namespace Stylesheet

/-! ### Locations behind a space -/

/-- Where a location is once a space was put before it, on a given line. -/
def Location.shifted (line : Nat) (l : Location) : Location :=
  ⟨l.line, if l.line = line then l.column + 1 else l.column, l.offset + 1⟩

namespace Location

variable {line : Nat} {l : Location}

theorem step_shifted (h : line ≤ l.line) (c : Char) :
    (l.shifted line).step c = (l.step c).shifted line := by
  unfold step
  by_cases hc : c = '\n'
  · simp only [if_pos hc, shifted]
    rw [if_neg (by omega)]
  · simp only [if_neg hc, shifted]
    by_cases hline : l.line = line
    · simp only [if_pos hline]
      congr 1
      omega
    · simp only [if_neg hline]
      congr 1
      omega

theorem after_shifted (h : line ≤ l.line) (t : Text) :
    (l.shifted line).after t = (l.after t).shifted line := by
  induction t generalizing l with
  | nil => rfl
  | cons c t ih =>
    rw [after_cons, after_cons, step_shifted h, ih (Nat.le_trans h (line_le_step l c))]

theorem step_space (l : Location) : l.step ' ' = l.shifted l.line := by
  rw [shifted, if_pos rfl]
  rfl

end Location

/-! ### Places behind a space -/

theorem Cursor.location_advance_shifted {o o' : Cursor} (hrest : o'.rest = o.rest)
    (hlocation : o'.location = o.location.shifted o.line) (n : Nat) :
    (o'.advance n).location = (o.advance n).location.shifted o.line := by
  rw [location_advance, location_advance, hrest, hlocation,
    Location.after_shifted (Nat.le_refl o.line)]

/-- The places of two texts from where the second has a space before the text of the first. -/
def Replica.behindSpace {o o' : Cursor} (hrest : o'.rest = o.rest)
    (hlocation : o'.location = o.location.shifted o.line) : Replica :=
  .onward hrest (Location.shifted o.line) 0 1 (fun _ => rfl) (fun _ => rfl)
    (Cursor.location_advance_shifted hrest hlocation) none (Replica.lt_offset_of_mem_none o') []

namespace Grammar

/-! ### Pairs of names -/

/-- A name, a colon, perhaps a space, and another name before a brace. -/
def pair (name value : Text) (spaced : Bool) (u : Text) : Text :=
  name ++ ':' :: ((if spaced then [' '] else []) ++ (value ++ '{' :: u))

section
variable {name : Text} (hname : Text.isAsciiName.starts name = true) {s : State} {u : Text}
include hname

theorem head?_ne_of_name {x : Char} (hx : isAsciiStart x = false) : (name ++ u).head? ≠ some x := by
  obtain ⟨c, v, rfl, hc, -⟩ := Text.exists_of_starts hname
  exact fun heq => ne_of_start hc hx (Option.some.inj heq)

theorem trivia_of_name : Recognizer.trivia (name ++ u) = none := by
  obtain ⟨c, v, rfl, hc, -⟩ := Text.exists_of_starts hname
  exact Recognizer.trivia_eq_none (isBlank_of_ascii (isAsciiBody_of_start hc))
    (ne_of_start hc (by decide))

theorem left_advance_name (hrest : s.cursor.rest = name ++ u) :
    (s.cursor.advance name.length).left < s.cursor.left := by
  obtain ⟨c, v, rfl, -, -⟩ := Text.exists_of_starts hname
  rw [Cursor.left_eq, Cursor.left_eq, Cursor.rest_advance_append hrest, hrest]
  simp only [List.cons_append, List.length_cons, List.length_append]
  omega

theorem offset_lt_of_name (hrest : s.cursor.rest = name ++ u) :
    s.cursor.offset < (s.cursor.advance name.length).offset :=
  (Cursor.before_advance _ _).offset_lt (left_advance_name hname hrest)

theorem hack_of_name : hack (name ++ u) = none := by
  rw [hack, Recognizer.orElse, char_eq_none (head?_ne_of_name hname (by decide)),
    char_eq_none (head?_ne_of_name hname (by decide))]
  rfl

theorem namePiece_of_word (hrest : s.cursor.rest = name ++ u)
    (hu : u.head?.any isNameChar = false) :
    namePiece s = .ok true { s with cursor := s.cursor.advance name.length } := by
  refine orM_of_true (passes_of_some ?_)
  rw [hrest, Recognizer.identifier_ascii (Text.isAsciiName_of_starts hname) hu]

/-- The pieces of a name before a colon or a brace. -/
theorem namePieces_of_word {x : Char} (hx : x = ':' ∨ x = '{')
    (hrest : s.cursor.rest = name ++ x :: u) :
    repeatWhile State.size namePiece s =
      .ok () { s with cursor := s.cursor.advance name.length } := by
  have hsign : namePiece { s with cursor := s.cursor.advance name.length } =
      .ok false { s with cursor := s.cursor.advance name.length } := by
    have hat : (s.cursor.advance name.length).rest = x :: u := Cursor.rest_advance_append hrest
    rcases hx with rfl | rfl <;>
      rw [namePiece_of_none (by rw [hat]; rfl), interpolation_of_none (by rw [hat]; rfl)]
  have hbehind : (x :: u).head?.any isNameChar = false := by rcases hx with rfl | rfl <;> rfl
  rw [repeatWhile_apply, namePiece_of_word hname hrest hbehind]
  refine (if_pos (left_advance_name hname hrest)).trans ?_
  rw [repeatWhile_apply, hsign]

/-- A name before a colon or a brace may be that of a property. -/
theorem propertyName_of_word {x : Char} (hx : x = ':' ∨ x = '{')
    (hrest : s.cursor.rest = name ++ x :: u) :
    propertyName s = .ok () { s with cursor := s.cursor.advance name.length } := by
  unfold propertyName here
  simp only [bind_apply, get_apply, pure_apply, namePieces_of_word hname hx hrest,
    if_pos (offset_lt_of_name hname hrest)]

/-- The name of a declaration and the colon behind it. -/
theorem name_of_word (hrest : s.cursor.rest = name ++ ':' :: u) :
    (do
      propertyName
      let name := (← here).textSince s.cursor
      let _ ← skipTrivia
      expect ':'
      return name : Production Text) s =
      .ok name { s with cursor := (s.cursor.advance name.length).advance 1 } := by
  have hat : (s.cursor.advance name.length).rest = ':' :: u := Cursor.rest_advance_append hrest
  have hproperty := propertyName_of_word hname (.inl rfl) hrest
  have htrivia : skipTrivia { s with cursor := s.cursor.advance name.length } =
      .ok false { s with cursor := s.cursor.advance name.length } :=
    passes_of_none (by rw [hat]; exact Recognizer.trivia_eq_none rfl (by decide))
  have hexpect : expect ':' { s with cursor := s.cursor.advance name.length } =
      .ok () { s with cursor := (s.cursor.advance name.length).advance 1 } := by
    unfold expect
    rw [bind_apply, passes_of_some (n := 1) (by rw [hat]; rfl)]
    rfl
  unfold here
  simp only [bind_apply, get_apply, pure_apply, hproperty, htrivia, hexpect,
    Cursor.textSince_advance, hrest, List.take_left]

end

/-! ### As a declaration -/

section
variable (block : Production (List Node)) {s : State} {name value u : Text}
  (hname : Text.isAsciiName.starts name = true) (hvalue : Text.isAsciiName.starts value = true)

theorem flag_of_brace (f : Flag) (hrest : s.cursor.rest = '{' :: u) : flag f s = .ok false s := by
  have hskip : s.cursor.skip Recognizer.trivia = s.cursor := by
    rw [Cursor.skip, Cursor.pass?, hrest, Recognizer.trivia_eq_none rfl (by decide)]
    rfl
  have hbang : bangName? s.cursor.rest = none := by rw [hrest]; rfl
  unfold flag here moveTo
  simp only [bind_apply, get_apply, pure_apply, skipTrivia_apply, hskip, hbang, modify_apply]

include hvalue in
/-- A value before a brace has a nested block if there is space before it, and else is no value. -/
theorem declarationValue_of_word (line : Nat) (spaced : Bool)
    (hrest : s.cursor.rest = value ++ '{' :: u) :
    ∃ e : Expression, e.text = value ∧
      declarationValue block name line spaced s =
        (if spaced then (fun ns => ⟨.property name (some e) false, line, ns⟩) <$> block
          else fail "\";\"") { s with cursor := s.cursor.advance value.length } := by
  obtain ⟨e, htext, hexpression⟩ := expression_of_word hvalue .statement hrest
  refine ⟨e, htext, ?_⟩
  have hbrace : (s.cursor.advance value.length).rest = '{' :: u := Cursor.rest_advance_append hrest
  have hopen : (pure spaced <&&> sees (char '{')) s = .ok false s := by
    cases spaced with
    | false => rfl
    | true =>
      refine congrArg (EStateM.Result.ok · s) ?_
      rw [show s.cursor.sees (char '{') = (char '{' s.cursor.rest).isSome from rfl, hrest,
        char_eq_none (head?_ne_of_name hvalue (by decide))]
      rfl
  have hflag := flag_of_brace (s := { s with cursor := s.cursor.advance value.length }) .important
    hbrace
  have hskip : (s.cursor.advance value.length).skip Recognizer.trivia =
      s.cursor.advance value.length := by
    rw [Cursor.skip, Cursor.pass?, hbrace, Recognizer.trivia_eq_none rfl (by decide)]
    rfl
  have hsees : (char '{' (s.cursor.advance value.length).rest).isSome = true := by rw [hbrace]; rfl
  unfold declarationValue here
  rw [bind_apply, hopen]
  simp only [Bool.false_eq_true, if_false, bind_apply, map_apply, hexpression, hflag, get_apply,
    pure_apply, skipTrivia_apply, hskip, sees_apply, hsees, if_true]
  cases spaced with
  | false => rfl
  | true =>
    simp only [if_true, bind_apply, pure_apply, map_apply]

theorem during_of_ok {α : Type} {p : Production α} (committed : Bool) {a : α} {t : State}
    (h : p s = .ok a t) : during committed p s = .ok a t := by
  unfold during
  rw [h]

include hvalue in
/-- What is passed between the colon and the value is the space, if there is one. -/
theorem skipTrivia_of_gap (spaced : Bool)
    (hrest : s.cursor.rest = (if spaced then [' '] else []) ++ (value ++ u)) :
    skipTrivia s = .ok spaced { s with cursor := s.cursor.advance (if spaced then 1 else 0) } := by
  have hnone : Recognizer.trivia (value ++ u) = none := trivia_of_name hvalue
  cases spaced with
  | false =>
    refine (passes_of_none (hrest ▸ hnone)).trans ?_
    simp only [Bool.false_eq_true, if_false, Cursor.advance_zero]
  | true =>
    exact passes_of_some (hrest ▸ Recognizer.trivia_space hnone)

/-- The place of the value behind a name and a colon. -/
def valueOf (name : Text) (spaced : Bool) (c : Cursor) : Cursor :=
  ((c.advance name.length).advance 1).advance (if spaced then 1 else 0)

theorem valueOf_false (name : Text) (c : Cursor) :
    valueOf name false c = (c.advance name.length).advance 1 :=
  Cursor.advance_zero _

theorem rest_valueOf {spaced : Bool} (hrest : s.cursor.rest = pair name value spaced u) :
    (valueOf name spaced s.cursor).rest = value ++ '{' :: u := by
  rw [valueOf, Cursor.rest_advance, Cursor.rest_advance, Cursor.rest_advance_append hrest]
  cases spaced <;> rfl

/-- The place of the brace behind a pair of names. -/
def braceOf (name value : Text) (spaced : Bool) (c : Cursor) : Cursor :=
  (valueOf name spaced c).advance value.length

theorem rest_braceOf {spaced : Bool} (hrest : s.cursor.rest = pair name value spaced u) :
    (braceOf name value spaced s.cursor).rest = '{' :: u :=
  Cursor.rest_advance_append (rest_valueOf hrest)

include hname hvalue in
/-- A pair of names before a brace is a declaration if there is a space between them, and else could
still be a selector. -/
theorem declaration_of_pair (spaced : Bool) (hrest : s.cursor.rest = pair name value spaced u) :
    ∃ e : Expression, e.text = value ∧
      declaration block s =
        during spaced
          (if spaced then (fun ns => ⟨.property name (some e) false, s.cursor.line, ns⟩) <$> block
            else fail "\";\"") { s with cursor := braceOf name value spaced s.cursor } := by
  have hcolon := name_of_word hname hrest
  have hbehind : ((s.cursor.advance name.length).advance 1).rest =
      (if spaced then [' '] else []) ++ (value ++ '{' :: u) := by
    rw [Cursor.rest_advance, Cursor.rest_advance_append hrest]
    rfl
  have hspace : skipTrivia { s with cursor := (s.cursor.advance name.length).advance 1 } =
      .ok spaced { s with cursor := valueOf name spaced s.cursor } :=
    skipTrivia_of_gap hvalue spaced hbehind
  have hidentifier : (Recognizer.identifier (valueOf name spaced s.cursor).rest).isSome = true := by
    rw [rest_valueOf hrest, Recognizer.identifier_ascii (Text.isAsciiName_of_starts hvalue) rfl]
    rfl
  have hhack : hack s.cursor.rest = none := hrest ▸ hack_of_name hname
  obtain ⟨e, htext, hdeclared⟩ : ∃ e : Expression, e.text = value ∧
      declarationValue block name s.cursor.line spaced
      { s with cursor := valueOf name spaced s.cursor } = _ :=
    declarationValue_of_word block hvalue s.cursor.line spaced (rest_valueOf hrest)
  refine ⟨e, htext, ?_⟩
  have hstart : here s = .ok s.cursor s := rfl
  unfold declaration
  simp only [bind_apply, during_of_ok false hstart, during_of_ok false (passes_of_none hhack),
    during_of_ok _ hcolon, during_of_ok _ hspace, during_of_ok _ sees_apply, hidentifier,
    Bool.not_true, Bool.or_false, Bool.false_or]
  unfold during
  rw [hdeclared]
  rfl

end

/-! ### As a selector -/

section
variable {s : State} {x : Char} {u : Text} (hx : x = '{' ∨ x = '\x7d')
  (hrest : s.cursor.rest = x :: u)
include hx hrest

/-- No piece of a selector begins with a brace. -/
theorem piece_of_brace {inner : Production Bool} : Selector.piece inner s = .ok false s := by
  have hhead : ∀ y, y ≠ '{' → y ≠ '\x7d' → s.cursor.rest.head? ≠ some y := by
    intro y hopen hclose
    rcases hx with rfl | rfl
    · exact head_ne hrest hopen.symm
    · exact head_ne hrest hclose.symm
  have hidentifier : Recognizer.identifier s.cursor.rest = none := by
    rcases hx with rfl | rfl <;> rw [hrest] <;> rfl
  have hhash := hhead '#' (by decide) (by decide)
  have hcolon := hhead ':' (by decide) (by decide)
  rw [piece_of_head hidentifier (andThen_eq_none (char_eq_none hhash) _)
      (hhead '*' (by decide) (by decide)) (hhead '&' (by decide) (by decide))
      (hhead '.' (by decide) (by decide)) (hhead '[' (by decide) (by decide)),
    orM_of_false (negationPiece_of_none (notHead_eq_none hcolon)),
    orM_of_false (pseudoPiece_of_none hcolon), interpolation_of_none (literal_eq_none hhash)]

theorem sequence_of_brace : Selector.sequence s = .ok false s := by
  have hpieces : ∀ inner, repeatWhile State.size (Selector.piece inner) s = .ok () s := by
    intro inner
    rw [repeatWhile_apply, piece_of_brace hx hrest]
  obtain ⟨o, htrivia, hsign⟩ : ∃ o : Op, Recognizer.trivia (x :: u) = none ∧
      Lexeme.at? false (x :: u) = some { kind := .op o, length := 1 } := by
    rcases hx with rfl | rfl
    · exact ⟨.openBrace, Recognizer.trivia_eq_none rfl (by decide), rfl⟩
    · exact ⟨.closeBrace, Recognizer.trivia_eq_none rfl (by decide), rfl⟩
  have hcollect : ∃ l, Lexer.collectUntil (fun () t => if t.isOperator then none else some ()) ()
      (.ofCursor s.cursor s.options) = .ok [] l ∧ _ :=
    Lexer.collectUntil_of_sign rfl rfl hrest htrivia hsign fun t ht =>
      if_pos (Token.isOperator_iff.mpr ⟨_, ht⟩)
  obtain ⟨l, hl, -⟩ := hcollect
  have hrun : Selector.run s = .ok false s := by
    rw [Selector.run_apply]
    unfold lexing Lexer.takeUntil
    simp only [hl]
    rfl
  unfold Selector.sequence
  rw [recurse_apply]
  exact (sequenceBy_of_pieces (hpieces _)).trans ((if_neg (Nat.lt_irrefl _)).trans hrun)

end

section
variable {s : State} {u : Text} (hrest : s.cursor.rest = '{' :: u)
include hrest

theorem skip_of_brace : s.cursor.skip Recognizer.trivia = s.cursor := by
  rw [Cursor.skip, Cursor.pass?, hrest, Recognizer.trivia_eq_none rfl (by decide)]
  rfl

theorem continuation_of_brace : Selector.continuation s = .ok false s := by
  have hcombinator : Selector.combinator s.cursor.rest = none := by rw [hrest]; rfl
  unfold Selector.continuation here moveTo
  simp only [bind_apply, get_apply, pure_apply, modify_apply, skipTrivia_apply, skip_of_brace hrest,
    passes_of_none hcombinator, sequence_of_brace (.inl rfl) hrest, Bool.false_eq_true, if_false]

theorem alternative_of_brace : Selector.alternative s = .ok false s := by
  have hcomma : char ',' s.cursor.rest = none := by rw [hrest]; rfl
  unfold Selector.alternative here moveTo
  simp only [bind_apply, get_apply, pure_apply, modify_apply, skipTrivia_apply, skip_of_brace hrest,
    passes_of_none hcomma, Bool.false_eq_true, if_false]

end

/-- Pieces up to a brace are a selector. -/
theorem groupText_of_pieces {s : State} {t u : Text} (hrest : s.cursor.rest = t ++ '{' :: u)
    (hcombinator : Selector.combinator s.cursor.rest = none)
    (hpieces : ∀ inner, repeatWhile State.size (Selector.piece inner) s =
      .ok () { s with cursor := s.cursor.advance t.length })
    (hlt : s.cursor.offset < (s.cursor.advance t.length).offset) :
    Selector.groupText s = .ok t.trim { s with cursor := s.cursor.advance t.length } := by
  have hbrace : (s.cursor.advance t.length).rest = '{' :: u := Cursor.rest_advance_append hrest
  have hsequence :
      Selector.sequence s = .ok true { s with cursor := s.cursor.advance t.length } := by
    unfold Selector.sequence
    rw [recurse_apply]
    exact (sequenceBy_of_pieces (hpieces _)).trans (if_pos hlt)
  have hselector : Selector.selector s = .ok () { s with cursor := s.cursor.advance t.length } := by
    unfold Selector.selector
    simp only [bind_apply, passes_of_none hcombinator, hsequence, Bool.false_eq_true,
      if_false, if_true]
    rw [repeatWhile_apply, continuation_of_brace hbrace]
  have hgroup : Selector.group s = .ok () { s with cursor := s.cursor.advance t.length } := by
    unfold Selector.group
    rw [bind_apply, hselector]
    simp only
    rw [repeatWhile_apply, alternative_of_brace hbrace]
  unfold Selector.groupText here
  simp only [bind_apply, get_apply, pure_apply, hgroup]
  rw [Cursor.textSince_advance, hrest, List.take_left]

/-- A selector before a brace is that of a ruleset. -/
theorem ruleset_of_groupText (block : Production (List Node)) {s : State} {t u : Text} {c : Cursor}
    (hselector : Selector.groupText s = .ok t { s with cursor := c }) (hbrace : c.rest = '{' :: u) :
    ruleset block s =
      ((fun ns => (⟨.ruleset t, s.cursor.line, ns⟩ : Node)) <$> block) { s with cursor := c } := by
  have hskip := skip_of_brace (s := { s with cursor := c }) hbrace
  unfold ruleset here
  simp only [bind_apply, get_apply, pure_apply, hselector, skipTrivia_apply, hskip, map_apply]

theorem trim_of_ascii {t : Text} (h : ∀ c ∈ t, isBlank c = false) : t.trim = t := by
  have hdrop : ∀ t : Text, (∀ c ∈ t, isBlank c = false) → t.dropWhile isBlank = t := by
    intro t ht
    cases t with
    | nil => rfl
    | cons c t => exact List.dropWhile_cons_of_neg (by rw [ht c List.mem_cons_self]; decide)
  rw [Text.trim, hdrop t h, hdrop _ fun c hc => h c (List.mem_reverse.mp hc), List.reverse_reverse]

section
variable (block : Production (List Node)) {s : State} {name value u : Text}
  (hname : Text.isAsciiName.starts name = true) (hvalue : Text.isAsciiName.starts value = true)
  (hrest : s.cursor.rest = pair name value false u)
include hname hvalue hrest

theorem pieces_of_pair {inner : Production Bool} :
    repeatWhile State.size (Selector.piece inner) s =
      .ok () { s with cursor := braceOf name value false s.cursor } := by
  have hcolon : (s.cursor.advance name.length).rest = ':' :: (value ++ '{' :: u) :=
    Cursor.rest_advance_append hrest
  have hbehind : ((s.cursor.advance name.length).advance 1).rest = value ++ '{' :: u := by
    rw [Cursor.rest_advance, hcolon]
    rfl
  have hbrace := rest_braceOf hrest
  have hplace : braceOf name value false s.cursor =
      ((s.cursor.advance name.length).advance 1).advance value.length := by
    rw [braceOf, valueOf_false]
  have hheads : ∀ x ∈ [':', '+', '>', '~', '(', '*'], (value ++ '{' :: u).head? ≠ some x := by
    intro x hx
    simp only [List.mem_cons, List.not_mem_nil, or_false] at hx
    rcases hx with rfl | rfl | rfl | rfl | rfl | rfl <;> exact head?_ne_of_name hvalue (by decide)
  have hnamed : namePiece { s with cursor := (s.cursor.advance name.length).advance 1 } =
      .ok true { s with cursor := braceOf name value false s.cursor } := by
    rw [hplace]
    exact namePiece_of_word hvalue hbehind rfl
  have hmark : Selector.piece inner { s with cursor := s.cursor.advance name.length } =
      .ok true { s with cursor := braceOf name value false s.cursor } :=
    piece_of_mark hcolon hheads hnamed (by rw [hbrace]; rfl)
  have hsize : (braceOf name value false s.cursor).left < (s.cursor.advance name.length).left := by
    have hleft :=
      left_advance_name (s := { s with cursor := (s.cursor.advance name.length).advance 1 })
      hvalue hbehind
    rw [hplace]
    exact Nat.lt_of_lt_of_le hleft (Cursor.before_advance 1 _).left_le
  rw [repeatWhile_apply, piece_of_namePiece (namePiece_of_word hname hrest rfl)]
  refine (if_pos (left_advance_name hname hrest)).trans ?_
  rw [repeatWhile_apply, hmark]
  refine (if_pos hsize).trans ?_
  rw [repeatWhile_apply, piece_of_brace (.inl rfl) hbrace]

/-- **A pair of names without a space is a selector** up to the brace. -/
theorem groupText_of_pair :
    Selector.groupText s =
      .ok (name ++ ':' :: value) { s with cursor := braceOf name value false s.cursor } := by
  have hplace : braceOf name value false s.cursor =
      s.cursor.advance (name ++ ':' :: value).length := by
    rw [braceOf, valueOf_false, Cursor.advance_advance, Cursor.advance_advance, List.length_append,
      List.length_cons]
    congr 1
    omega
  have htext : s.cursor.rest = (name ++ ':' :: value) ++ '{' :: u := by
    rw [hrest, pair, List.append_assoc]
    rfl
  have hlt : s.cursor.offset < (s.cursor.advance (name ++ ':' :: value).length).offset := by
    rw [List.length_append, ← Cursor.advance_advance]
    exact Nat.lt_of_lt_of_le (offset_lt_of_name hname hrest) (Cursor.before_advance _ _).offset_le
  have hcombinator : Selector.combinator s.cursor.rest = none := by
    rw [hrest, pair]
    exact combinator_eq_none (head?_ne_of_name hname (by decide))
      (head?_ne_of_name hname (by decide)) (head?_ne_of_name hname (by decide))
  have htrim : Text.trim (name ++ ':' :: value) = name ++ ':' :: value := by
    obtain ⟨-, -, -, -, hnameBody⟩ := Text.exists_of_starts hname
    obtain ⟨-, -, -, -, hvalueBody⟩ := Text.exists_of_starts hvalue
    refine trim_of_ascii fun c hc => ?_
    rcases List.mem_append.mp hc with hc | hc
    · exact isBlank_of_ascii (hnameBody c hc)
    rcases List.mem_cons.mp hc with rfl | hc
    · decide
    · exact isBlank_of_ascii (hvalueBody c hc)
  rw [hplace, groupText_of_pieces htext hcombinator
    (fun _ => hplace ▸ pieces_of_pair hname hvalue hrest) hlt, htrim]

theorem ruleset_of_pair :
    ruleset block s =
      ((fun ns => (⟨.ruleset (name ++ ':' :: value), s.cursor.line, ns⟩ : Node)) <$> block)
        { s with cursor := braceOf name value false s.cursor } :=
  ruleset_of_groupText block (groupText_of_pair hname hvalue hrest) (rest_braceOf hrest)

end

/-! ### As a statement -/

/-- Giving up where only the cursor moved. -/
theorem giveUp_moved (s : State) (c : Cursor) :
    ({ s with cursor := c } : State).giveUp s =
      { s with backtracks := s.backtracks ++ [s.cursor.line] } := by
  unfold State.giveUp
  cases s.rollback <;> rfl

section
variable {s : State} {name value u : Text}
  (hname : Text.isAsciiName.starts name = true) (hvalue : Text.isAsciiName.starts value = true)
include hname

theorem spacedName_of_pair (hrest : s.cursor.rest = pair name value true u) : SpacedName s := by
  have hat : (s.cursor.advance name.length).rest = ':' :: ' ' :: (value ++ '{' :: u) :=
    Cursor.rest_advance_append hrest
  refine ⟨false, s, { s with cursor := s.cursor.advance name.length },
    passes_of_none (hrest ▸ hack_of_name hname), namePieces_of_word hname (.inl rfl) hrest,
    offset_lt_of_name hname hrest, ' ', value ++ '{' :: u, ?_, .inr ⟨by decide, by decide⟩⟩
  show ((s.cursor.advance name.length).skip Recognizer.trivia).rest = _
  rw [Cursor.skip, Cursor.pass?, hat, Recognizer.trivia_eq_none rfl (by decide)]
  exact hat

include hvalue

/-- Without a space the attempt to read a declaration is given up, and the pair is a ruleset. -/
theorem declarationOrRuleset_of_joined (block : Production (List Node))
    (hrest : s.cursor.rest = pair name value false u) :
    declarationOrRuleset block s =
      ((fun ns => (⟨.ruleset (name ++ ':' :: value), s.cursor.line, ns⟩ : Node)) <$> block)
        { s with
          cursor := braceOf name value false s.cursor
          backtracks := s.backtracks ++ [s.cursor.line] } := by
  obtain ⟨e, -, hdeclaration⟩ := declaration_of_pair block hname hvalue false hrest
  have hrejected : declaration block s =
      .error ⟨(braceOf name value false s.cursor).unexpected "\";\"", false⟩
        { s with cursor := braceOf name value false s.cursor } := hdeclaration
  have hruleset := ruleset_of_pair block
    (s := { s with backtracks := s.backtracks ++ [s.cursor.line] }) hname hvalue hrest
  unfold declarationOrRuleset
  rw [hrejected]
  simp only [giveUp_moved]
  rw [hruleset, map_apply]
  cases block _ <;> rfl

/-- With a space the pair is a declaration with a nested block, or nothing. -/
theorem declarationOrRuleset_of_spaced {block : Production (List Node)} (hblock : BlockRule block)
    (hrest : s.cursor.rest = pair name value true u) :
    ∃ e : Expression, e.text = value ∧
      match block { s with cursor := braceOf name value true s.cursor } with
      | .ok ns t =>
        declarationOrRuleset block s = .ok ⟨.property name (some e) false, s.cursor.line, ns⟩ t
      | .error _ _ => ∃ e t, declarationOrRuleset block s = .error e t := by
  obtain ⟨e, htext, hdeclaration⟩ := declaration_of_pair block hname hvalue true hrest
  refine ⟨e, htext, ?_⟩
  unfold declarationOrRuleset
  rw [hdeclaration]
  unfold during
  simp only [if_true, map_apply]
  cases hrun : block { s with cursor := braceOf name value true s.cursor } with
  | ok ns t =>
    have hend : t.atEndOfDeclaration = true := by
      rw [State.atEndOfDeclaration, hblock.closes _ _ _ hrun, Bool.true_or]
    simp only [hend, if_true]
  | error e t =>
    -- The attempt fails with its block, and no selector has a space behind the colon.
    obtain ⟨e', t', hruleset, -⟩ := ruleset_of_spacedName hblock.opens
      (spacedName_of_pair (s := t.giveUp s) hname hrest)
    simp only [hruleset]
    exact ⟨_, _, rfl⟩

end

/-! ### As the first statement of a list -/

section
variable {name u : Text} (hname : Text.isAsciiName.starts name = true)
  {block : Production (List Node)} {s t : State} (hrest : s.cursor.rest = name ++ u)
include hname hrest

/-- A list of statements that starts with a name starts with a declaration or a ruleset. -/
theorem listStep_of_name :
    listStep block false s = (do
      let node ← declarationOrRuleset block
      if (← get).atBlockEnd then
        return ([node], some ())
      let _ ← skipTrivia
      unless ← passes (char ';') <||> listEnds false do
        fail "\";\""
      return ([node], some ()) : Production (List Node × Option Unit)) s := by
  have hhead : ∀ x, isAsciiStart x = false → s.cursor.rest.head? ≠ some x :=
    fun x hx => hrest ▸ head?_ne_of_name hname hx
  obtain ⟨c, v, hcons, hc, -⟩ := Text.exists_of_starts hname
  have hblank : Recognizer.blanks s.cursor.rest = none := by
    rw [hrest, hcons]
    exact if_neg (by rw [isBlank_of_ascii (isAsciiBody_of_start hc)]; decide)
  have hends : listEnds false s = .ok false s := by
    have hend : s.cursor.atEnd = false := by rw [Cursor.atEnd, hrest, hcons]; rfl
    unfold listEnds here
    simp only [bind_apply, get_apply, pure_apply, hend, Bool.false_and, Bool.or_false]
  have hslash : ∀ v, s.cursor.rest ≠ '/' :: v :=
    fun v heq => hhead '/' (by decide) (by rw [heq]; rfl)
  have hcomment : comment s = .ok none s := by
    have hblock : Recognizer.blockComment s.cursor.rest = none := by
      unfold Recognizer.blockComment
      split
      · next heq => exact absurd heq (hslash _)
      · rfl
    have hline : Recognizer.lineComment s.cursor.rest = none := by
      unfold Recognizer.lineComment
      split
      · next heq => exact absurd heq (hslash _)
      · rfl
    rw [comment_apply, hblock, hline]
  have hdollar : char '$' s.cursor.rest = none := char_eq_none (hhead '$' (by decide))
  have hat : char '@' s.cursor.rest = none := char_eq_none (hhead '@' (by decide))
  have hstatement : statement block s = declarationOrRuleset block s := by
    unfold statement
    simp only [bind_apply, sees_apply, hdollar, hat, Option.isSome_none,
      Bool.false_eq_true, if_false]
  unfold listStep
  simp only [bind_apply, passes_of_none hblank, hends,
    passes_of_none (char_eq_none (hhead ';' (by decide))), hcomment, hstatement,
    Bool.false_eq_true, if_false]

theorem statements_of_error {e : SyntaxError} (h : declarationOrRuleset block s = .error e t) :
    statements block false s = .error e t := by
  unfold statements
  rw [unfold_apply, listStep_of_name hname hrest]
  simp only [bind_apply, h]

theorem statements_of_ok {n : Node} (h : declarationOrRuleset block s = .ok n t)
    (hend : t.atBlockEnd = true) (hsize : t.size < s.size) :
    statements block false s = ((n :: ·) <$> statements block false) t := by
  unfold statements
  rw [map_apply, unfold_apply, listStep_of_name hname hrest]
  simp only [bind_apply, h, get_apply, pure_apply, hend, if_true, if_pos hsize]
  cases unfold State.size (fun _ => listStep block false) () t <;> rfl

end

theorem left_braceOf_lt {name value u : Text} (hname : Text.isAsciiName.starts name = true)
    {spaced : Bool} {s : State} (hrest : s.cursor.rest = pair name value spaced u) :
    (braceOf name value spaced s.cursor).left < s.cursor.left :=
  Nat.lt_of_le_of_lt ((((Cursor.before_advance 1 _).advance _).advance _).left_le)
    (left_advance_name hname hrest)

theorem size_of_block {s t : State} {ns : List Node} (h : block s = .ok ns t) : t.size ≤ s.size :=
  ((yields_block s (.refl s.cursor) rfl).of_ok h).1.1.left_le

/-! ### The two documents -/

theorem location_valueOf {name value u : Text} {spaced : Bool} {c : Cursor}
    (hrest : c.rest = pair name value spaced u) :
    (valueOf name spaced c).location =
      ((c.location.after name).step ':').after (if spaced then [' '] else []) := by
  have hcolon : c.rest.drop name.length =
      ':' :: ((if spaced then [' '] else []) ++ (value ++ '{' :: u)) := by
    rw [hrest, pair, List.drop_left]
  have hname : c.rest.take name.length = name := by rw [hrest, pair, List.take_left]
  rw [valueOf, Cursor.location_advance, Cursor.location_advance, Cursor.location_advance,
    Cursor.rest_advance, Cursor.rest_advance, Cursor.rest_advance, hname, hcolon]
  cases spaced <;> rfl

/-- The first tree begins with a ruleset, the second with a property in its place, and what is in
their blocks and behind them is the same, moved on behind a space. -/
def Nests (name value : Text) (line : Nat) (tree tree' : Node) : Prop :=
  ∃ (e : Expression) (children siblings : List Node), e.text = value ∧
    tree = ⟨.root, line, ⟨.ruleset (name ++ ':' :: value), line, children⟩ :: siblings⟩ ∧
    tree' = ⟨.root, line,
      ⟨.property name (some e) false, line, children.map (Node.relocate (Location.shifted line))⟩ ::
        siblings.map (Node.relocate (Location.shifted line))⟩

theorem document_apply (s : State) :
    document s =
      ((fun ns => (⟨.root, s.cursor.line, ns⟩ : Node)) <$> statements block false) s := by
  unfold document here
  simp only [bind_apply, get_apply, pure_apply, map_apply]

section
variable {name value : Text} (hname : Text.isAsciiName.starts name = true)
  (hvalue : Text.isAsciiName.starts value = true)
include hname hvalue

omit hvalue in
/-- The colon behind a name is on the line of the name. -/
theorem line_colon (l : Location) : ((l.after name).step ':').line = l.line := by
  obtain ⟨-, -, -, -, hbody⟩ := Text.exists_of_starts hname
  have hnewline : '\n' ∉ name := fun hmem => ne_of_body (hbody _ hmem) (by decide) rfl
  exact (Location.line_after l name).trans (by rw [List.count_eq_zero.mpr hnewline, Nat.add_zero])

omit hvalue in
/-- Before the braces of the two texts the states are alike, though one of them has given up an
attempt. -/
theorem sameState_of_pairs {u : Text} {options : Options} {s s' : State}
    (hs : s = .start (pair name value false u) options)
    (hs' : s' = .start (pair name value true u) options) :
    ∃ R : Replica, R.move = Location.shifted options.line ∧ R.lines = 0 ∧
    R.earlier = [] ∧ R.SameState
      { s with
        cursor := braceOf name value false s.cursor
        backtracks := s.backtracks ++ [s.cursor.line] }
      { s' with cursor := braceOf name value true s'.cursor } := by
  subst hs hs'
  have hrest :
      (State.start (pair name value false u) options).cursor.rest = pair name value false u := rfl
  have hrest' :
      (State.start (pair name value true u) options).cursor.rest = pair name value true u := rfl
  -- The two texts look alike from the values on, one byte apart.
  have hsame := (rest_valueOf hrest').trans (rest_valueOf hrest).symm
  have hline : (valueOf name false (State.start (pair name value false u) options).cursor).line =
      options.line := by
    rw [Cursor.line, location_valueOf hrest]
    exact line_colon hname _
  have hshift : (valueOf name true (State.start (pair name value true u) options).cursor).location =
      (valueOf name false (State.start (pair name value false u) options).cursor).location.shifted
        (valueOf name false (State.start (pair name value false u) options).cursor).line := by
    rw [Cursor.line, location_valueOf hrest, location_valueOf hrest']
    exact Location.step_space _
  exact ⟨.behindSpace hsame hshift, congrArg Location.shifted hline, rfl, rfl,
    ⟨value.length, rfl, rfl⟩, rfl, .inl rfl, rfl, trivial, rfl⟩

/-- From two pairs of names on, one with a space and one without, the documents go on alike or fail
both. -/
theorem documents_of_pairs (u : Text) (options : Options) :
    (∃ tree t tree' t', document (.start (pair name value false u) options) = .ok tree t ∧
      document (.start (pair name value true u) options) = .ok tree' t' ∧
        t'.warnings = t.warnings ∧ Nests name value options.line tree tree') ∨
    (∃ e t, document (.start (pair name value false u) options) = .error e t) ∧
      ∃ e t, document (.start (pair name value true u) options) = .error e t := by
  rw [document_apply, document_apply, map_apply, map_apply]
  generalize hs : State.start (pair name value false u) options = s,
    hs' : State.start (pair name value true u) options = s'
  have hrest : s.cursor.rest = pair name value false u := by rw [← hs]; rfl
  have hrest' : s'.cursor.rest = pair name value true u := by rw [← hs']; rfl
  have hline : s.cursor.line = options.line := by rw [← hs]; rfl
  have hline' : s'.cursor.line = options.line := by rw [← hs']; rfl
  obtain ⟨R, hmove, hlines, hearlier, hlike⟩ := sameState_of_pairs hname hs.symm hs'.symm
  -- The two blocks are read alike, and from where they end so are the statements behind them.
  have hrun := Replica.follows_block _ _ hlike
  have hjoined := declarationOrRuleset_of_joined hname hvalue block hrest
  obtain ⟨e, htext, hspaced⟩ := declarationOrRuleset_of_spaced hname hvalue blockRule_block hrest'
  rw [map_apply] at hjoined
  generalize hb : block
      { s with
        cursor := braceOf name value false s.cursor
        backtracks := s.backtracks ++ [s.cursor.line] } = r,
    hb' : block { s' with cursor := braceOf name value true s'.cursor } = r' at hrun hjoined hspaced
  cases hrun with
  | error _ _ =>
    obtain ⟨e', v, herror⟩ := hspaced
    rw [statements_of_error hname hrest hjoined, statements_of_error hname hrest' herror]
    exact .inr ⟨⟨_, _, rfl⟩, _, _, rfl⟩
  | @ok ns ms t t' hnodes hstates =>
    have hsize := Nat.lt_of_le_of_lt (size_of_block hb) (left_braceOf_lt hname hrest)
    have hsize' := Nat.lt_of_le_of_lt (size_of_block hb') (left_braceOf_lt hname hrest')
    rw [statements_of_ok hname hrest hjoined (blockRule_block.closes _ _ _ hb) hsize,
      statements_of_ok hname hrest' hspaced (blockRule_block.closes _ _ _ hb') hsize',
      map_apply, map_apply]
    have hmore := Replica.follows_statements Replica.follows_block false t t' hstates
    generalize statements block false t = r, statements block false t' = r' at hmore
    cases hmore with
    | error _ _ => exact .inr ⟨⟨_, _, rfl⟩, _, _, rfl⟩
    | @ok siblings siblings' v v' hsiblings hend =>
      have hmoved :
          Node.transport R.move R.lines = Node.relocate (Location.shifted options.line) := by
        rw [hmove, hlines, funext (Node.transport_zero _)]
      have hwarnings : v'.warnings = v.warnings := by
        rw [hend.warnings, hearlier, hlines]
        exact List.map_id _
      refine .inl ⟨_, _, _, _, rfl, rfl, hwarnings, e, ns, siblings, htext, ?_, ?_⟩
      · rw [hline]
      · rw [hline', show ms = _ from hnodes, show siblings' = _ from hsiblings, hmoved]

end

end Grammar

open Grammar

/-- **One space behind the colon makes a nested property of a ruleset, and changes nothing else.**
The one text parses if and only if the other does, and then what is in the block, what stands behind
it and the warnings are the same, one byte and on the first line one column further on. -/
theorem nested_iff_ruleset {name value : Text} (hname : Text.isAsciiName.starts name = true)
    (hvalue : Text.isAsciiName.starts value = true) (text : Text) (options : Options) :
    let joined := parse (name ++ ':' :: value ++ '{' :: text) options
    let spaced := parse (name ++ ':' :: ' ' :: value ++ '{' :: text) options
    ((∃ tree, joined.result = .ok tree) ↔ ∃ tree, spaced.result = .ok tree) ∧
      ∀ tree tree', joined.result = .ok tree → spaced.result = .ok tree' →
        Nests name value options.line tree tree' ∧ spaced.warnings = joined.warnings := by
  have hjoined : name ++ ':' :: value ++ '{' :: text = pair name value false text := by
    rw [pair, List.append_assoc]
    rfl
  have hspaced : name ++ ':' :: ' ' :: value ++ '{' :: text = pair name value true text := by
    rw [pair, List.append_assoc]
    rfl
  rw [hjoined, hspaced]
  unfold parse
  rcases documents_of_pairs hname hvalue text options with
    ⟨tree, t, tree', t', htree, htree', hwarnings, hnests⟩ | ⟨⟨e, t, herror⟩, e', t', herror'⟩
  · rw [htree, htree']
    refine ⟨⟨fun _ => ⟨_, rfl⟩, fun _ => ⟨_, rfl⟩⟩, ?_⟩
    rintro _ _ ⟨⟩ ⟨⟩
    exact ⟨hnests, hwarnings⟩
  · rw [herror, herror']
    exact ⟨⟨nofun, nofun⟩, nofun⟩

/-- A link and its state, or a property of that name. -/
theorem nested_iff_ruleset_hover :
    Text.isAsciiName.starts "a".toList = true ∧ Text.isAsciiName.starts "hover".toList = true ∧
      ∃ tree tree',
        (parse ("a".toList ++ ':' :: "hover".toList ++ '{' :: "b: c\x7d".toList)).result =
          .ok tree ∧
          (parse ("a".toList ++ ':' :: ' ' :: "hover".toList ++ '{' :: "b: c\x7d".toList)).result =
            .ok tree' ∧
            Nests "a".toList "hover".toList 1 tree tree' := by
  have hname : Text.isAsciiName.starts "a".toList = true := by decide
  have hvalue : Text.isAsciiName.starts "hover".toList = true := by decide
  obtain ⟨tree, htree, -⟩ : ∃ tree,
      (parse ("a".toList ++ ':' :: "hover".toList ++ '{' :: "b: c\x7d".toList)).result = .ok tree ∧
        true = true :=
    exists_of_parse (p := fun _ => true) (by decide +kernel)
  obtain ⟨hiff, hnests⟩ := nested_iff_ruleset hname hvalue "b: c\x7d".toList {}
  obtain ⟨tree', htree'⟩ := hiff.mp ⟨tree, htree⟩
  exact ⟨hname, hvalue, tree, tree', htree, htree', (hnests tree tree' htree htree').1⟩

end Stylesheet
