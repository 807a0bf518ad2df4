import Stylesheet.Proofs.Arguments
import Stylesheet.Proofs.NestedStatements

/-!
# Lists of arguments and of parameters

A list in parentheses is read item by item (`Grammar.Items.loop`).  What its items are does not
matter, as long as each is read up to the comma or the parenthesis behind it: an argument is, and so
is a parameter with an argument as its default value.  So the use of a block has as many arguments
as were written, each with its text, and a block definition has the parameters that were written,
each with the text of its default value (`lists_split`).
-/
namespace Stylesheet

/-- Texts with a comma and a space between each two. -/
def listing (ts : List Text) : Text :=
  [',', ' '].intercalate ts

theorem listing_singleton (t : Text) : listing [t] = t :=
  List.intercalate_singleton

theorem listing_cons_cons (t t' : Text) (ts : List Text) :
    listing (t :: t' :: ts) = t ++ ',' :: ' ' :: listing (t' :: ts) := by
  rw [listing, List.intercalate_cons_cons, List.append_assoc]
  rfl

namespace Grammar

/-! ### Names -/

section
variable {s : State} {name u : Text} {x : Char} (ascii : Text.isAsciiName.starts name = true)
  (hx : isNameChar x = false)
include ascii hx

theorem identifier_of_ascii (hrest : s.cursor.rest = name ++ x :: u) :
    identifier s = .ok name { s with cursor := s.cursor.advance name.length } := by
  have hend : (x :: u).head?.any isNameChar = false := hx
  have hname : Recognizer.identifier s.cursor.rest = some name.length := by
    rw [hrest, Recognizer.identifier_ascii (Text.isAsciiName_of_starts ascii) hend]
  unfold identifier
  rw [bind_apply, take?_apply, hname]
  simp only [pure_apply, hrest, List.take_left]

theorem variableName_of_ascii (hrest : s.cursor.rest = '$' :: (name ++ x :: u)) :
    variableName s = .ok name { s with cursor := s.cursor.advance (1 + name.length) } := by
  have hend : (x :: u).head?.any isNameChar = false := hx
  have hidentifier := Recognizer.identifier_ascii (Text.isAsciiName_of_starts ascii) hend
  have hname : (char '$').andThen Recognizer.identifier s.cursor.rest = some (1 + name.length) := by
    rw [hrest]
    show (Recognizer.identifier (name ++ x :: u)).bind (fun n => some (1 + n)) = _
    rw [hidentifier]
    rfl
  have htext : ('$' :: (name ++ x :: u)).take (1 + name.length) = '$' :: name := by
    rw [Nat.add_comm, List.take_succ_cons, List.take_left]
  unfold variableName
  rw [bind_apply, take?_apply, hname]
  simp only [pure_apply, hrest, htext, List.drop_one, List.tail_cons,
    Text.unescape_ascii (Text.isAsciiName_of_starts ascii)]

end

/-! ### Items -/

section
variable {α : Type} {p : Production α} {s v : State} {a : α} {u : Text}

/-- A production that reads a text, with white space before it, up to the comma or the parenthesis
behind it. -/
def ReadsItem (p : Production α) (t : Text) (q : α → Prop) : Prop :=
  ∀ (s : State) (z : Char) (u : Text), (s.cursor.skip Recognizer.trivia).rest = t ++ z :: u →
    z = ',' ∨ z = ')' → ∃ a v, p s = .ok a v ∧ q a ∧ v.cursor.rest = z :: u ∧
    v.blockEnd = s.blockEnd

theorem item_of_comma (h : p s = .ok a v) (hrest : v.cursor.rest = ',' :: u) :
    Directive.item p s = .ok ([a], some ()) { v with cursor := v.cursor.advance 1 } := by
  have hskip : skipTrivia v = .ok false v :=
    passes_of_none (by rw [hrest]; exact Recognizer.trivia_eq_none rfl (by decide))
  have hcomma : passes (char ',') v = .ok true { v with cursor := v.cursor.advance 1 } :=
    passes_of_some (by rw [hrest]; rfl)
  unfold Directive.item
  simp only [bind_apply, h, hskip, hcomma, if_true, pure_apply]

theorem item_of_close (h : p s = .ok a v) (hrest : v.cursor.rest = ')' :: u) :
    Directive.item p s = .ok ([a], none) { v with cursor := v.cursor.advance 1 } := by
  have hskip : skipTrivia v = .ok false v :=
    passes_of_none (by rw [hrest]; exact Recognizer.trivia_eq_none rfl (by decide))
  have hcomma : passes (char ',') v = .ok false v := passes_of_none (by rw [hrest]; rfl)
  unfold Directive.item
  simp only [bind_apply, h, hskip, hcomma, Bool.false_eq_true, if_false, Seam.expect_of_cons hrest,
    pure_apply]

end

/-- How the items of a list are read: each has a source, and what is read of that shows what the
item means. -/
structure Items {α β γ : Type} (p : Production α) (source : β → Text) (view : α → γ)
    (meaning : β → γ) : Prop where
  begun : ∀ x, (source x).Begun
  reads : ∀ x, ReadsItem p (source x) (view · = meaning x)
  proceeds :
    Proceeds (fun () => Directive.item p) (unfold State.size (fun () => Directive.item p) ())

section
variable {α β γ : Type} {p : Production α} {source : β → Text} {view : α → γ} {meaning : β → γ}
  (h : Items p source view meaning) {s : State} {u : Text}
include h

theorem Items.begun_listing (x : β) (xs : List β) : (listing ((x :: xs).map source)).Begun := by
  cases xs with
  | nil =>
    rw [List.map_singleton, listing_singleton]
    exact h.begun x
  | cons y ys =>
    rw [List.map_cons, List.map_cons, listing_cons_cons]
    exact (h.begun x).append _

/-- **The items of a list are read one by one, and there is one for each that was written.**  What
ends an item is the comma behind it, or the parenthesis behind the last. -/
theorem Items.loop (x : β) (xs : List β)
    (hrest : (s.cursor.skip Recognizer.trivia).rest = listing ((x :: xs).map source) ++ ')' :: u) :
    ∃ as v, Loop (fun () => Directive.item p) () s (.ok as v) ∧
    as.map view = (x :: xs).map meaning ∧
      v.cursor.rest = u ∧ v.blockEnd = s.blockEnd := by
  induction xs generalizing x s with
  | nil =>
    rw [List.map_singleton, listing_singleton] at hrest
    obtain ⟨a, v, hread, hview, hclose, hblock⟩ := h.reads x s ')' u hrest (.inr rfl)
    refine ⟨[a], _, .stops (item_of_close hread hclose), ?_, ?_, hblock⟩
    · rw [List.map_singleton, List.map_singleton, hview]
    · exact Cursor.rest_advance_cons hclose
  | cons y ys ih =>
    rw [List.map_cons, List.map_cons, listing_cons_cons, List.append_assoc] at hrest
    obtain ⟨a, v, hread, hview, hcomma, hblock⟩ := h.reads x s ',' _ hrest (.inl rfl)
    -- The space behind the comma is white space before the next item.
    have hspace : (v.cursor.advance 1).rest = ' ' :: (listing ((y :: ys).map source) ++ ')' :: u) :=
      Cursor.rest_advance_cons hcomma
    have hbegun := (h.begun_listing y ys).append (')' :: u)
    have hnext : ((v.cursor.advance 1).skip Recognizer.trivia).rest =
        listing ((y :: ys).map source) ++ ')' :: u := by
      rw [Cursor.skip_of_some (hspace ▸ Recognizer.trivia_space hbegun.trivia),
        Cursor.rest_advance_cons hspace]
    obtain ⟨as, w, hloop, hviews, hend, hblocks⟩ :=
      ih (s := { v with cursor := v.cursor.advance 1 }) y hnext
    have hwhole : Loop (fun () => Directive.item p) () s (foundBefore [a] (.ok as w)) :=
      .goesOn (item_of_comma hread hcomma) hloop
    refine ⟨a :: as, w, hwhole, ?_, hend, hblocks.trans hblock⟩
    rw [List.map_cons, hview, hviews]
    rfl

theorem Items.list (x : β) (xs : List β)
    (hrest : s.cursor.rest = '(' :: (listing ((x :: xs).map source) ++ ')' :: u)) :
    ∃ as v, Directive.list p s = .ok as v ∧ as.map view = (x :: xs).map meaning ∧
      v.cursor.rest = u ∧ v.blockEnd = s.blockEnd := by
  have hbegun := (h.begun_listing x xs).append (')' :: u)
  have hbehind := Cursor.rest_advance_cons hrest
  have htrivia : Recognizer.trivia (s.cursor.advance 1).rest = none := hbehind ▸ hbegun.trivia
  have hclose : (s.cursor.advance 1).rest.head? ≠ some ')' := by
    obtain ⟨y, w, hcons, -, -, hy⟩ := hbegun
    rw [hbehind, hcons]
    exact fun hhead => hy (Option.some.inj hhead)
  have hstart : ((s.cursor.advance 1).skip Recognizer.trivia).rest =
      listing ((x :: xs).map source) ++ ')' :: u := by
    rw [Cursor.skip_of_none htrivia, hbehind]
  obtain ⟨as, v, hloop, hviews, hend, hblock⟩ :=
    h.loop (s := { s with cursor := s.cursor.advance 1 }) x xs hstart
  refine ⟨as, v, ?_, hviews, hend, hblock⟩
  have hskip : skipTrivia { s with cursor := s.cursor.advance 1 } =
      .ok false { s with cursor := s.cursor.advance 1 } := passes_of_none htrivia
  have hopen : passes (char ')') { s with cursor := s.cursor.advance 1 } =
      .ok false { s with cursor := s.cursor.advance 1 } := passes_of_none (char_eq_none hclose)
  unfold Directive.list
  simp only [bind_apply, Seam.expect_of_cons hrest, hskip, hopen, Bool.false_eq_true, if_false]
  exact (h.proceeds.ends _ _).mp hloop

end

/-! ### Arguments and parameters -/

theorem items_arguments :
    Items (expression .argument) Argument.source Expression.text Argument.source where
  begun := Argument.begun
  reads e _ _ _ hrest hz := expression_of_argument e hz hrest
  proceeds := progresses.arguments

end Grammar

/-- A parameter with an argument as its default value. -/
structure Preset where
  name : Text
  ascii : Text.isAsciiName.starts name = true
  value : Argument

/-- The source of a parameter. -/
def Preset.source (p : Preset) : Text :=
  '$' :: (p.name ++ ':' :: ' ' :: p.value.source)

/-- The name of a parameter and the text of its default value, if it has one. -/
def Parameter.outline (x : Parameter) : Text × Option Text :=
  (x.name, x.default.map (·.text))

/-- What is to be read of it. -/
def Preset.outline (p : Preset) : Text × Option Text :=
  (p.name, some p.value.source)

namespace Grammar

theorem parameter_of_preset (p : Preset) {s : State} {z : Char} {u : Text} (hz : z = ',' ∨ z = ')')
    (hrest : (s.cursor.skip Recognizer.trivia).rest = p.source ++ z :: u) :
    ∃ x v, Directive.parameter s = .ok x v ∧ x.outline = p.outline ∧
      v.cursor.rest = z :: u ∧ v.blockEnd = s.blockEnd := by
  obtain ⟨d, hd⟩ : ∃ d, d = s.cursor.skip Recognizer.trivia := ⟨_, rfl⟩
  rw [← hd, Preset.source, List.cons_append, List.append_assoc] at hrest
  have hname : variableName { s with cursor := d } =
      .ok p.name { s with cursor := d.advance (1 + p.name.length) } :=
    variableName_of_ascii p.ascii (by decide) hrest
  have hcolon :
      (d.advance (1 + p.name.length)).rest = ':' :: ' ' :: (p.value.source ++ z :: u) := by
    rw [← Cursor.advance_advance]
    exact Cursor.rest_advance_append (Cursor.rest_advance_cons hrest)
  have hskip : skipTrivia { s with cursor := d.advance (1 + p.name.length) } =
      .ok false { s with cursor := d.advance (1 + p.name.length) } :=
    passes_of_none (by rw [hcolon]; exact Recognizer.trivia_eq_none rfl (by decide))
  have hpass : passes (char ':') { s with cursor := d.advance (1 + p.name.length) } =
      .ok true { s with cursor := (d.advance (1 + p.name.length)).advance 1 } :=
    passes_of_some (by rw [hcolon]; rfl)
  have hvalue : (((d.advance (1 + p.name.length)).advance 1).skip Recognizer.trivia).rest =
      p.value.source ++ z :: u := by
    have hspace := Cursor.rest_advance_cons hcolon
    have hone := Recognizer.trivia_space (p.value.begun.append (z :: u)).trivia
    rw [Cursor.skip_of_some (hspace ▸ hone), Cursor.rest_advance_cons hspace]
  obtain ⟨x, v, hread, htext, hend, hblock⟩ := expression_of_argument p.value hz
    (s := { s with cursor := (d.advance (1 + p.name.length)).advance 1 }) hvalue
  refine ⟨⟨p.name, some x⟩, v, ?_, ?_, hend, hblock⟩
  · unfold Directive.parameter
    rw [bind_apply, skipTrivia_apply, ← hd]
    simp only [bind_apply, hname, hskip, hpass, if_true, hread, pure_apply]
  · rw [Parameter.outline, Option.map_some, htext]
    rfl

theorem items_presets :
    Items Directive.parameter Preset.source Parameter.outline Preset.outline where
  begun p := ⟨'$', _, rfl, by decide⟩
  reads p _ _ _ hrest hz := parameter_of_preset p hz hrest
  proceeds := progresses.parameters

/-! ### Directives -/

section
variable {name u : Text} (ascii : Text.isAsciiName.starts name = true) {s : State}
include ascii

/-- A name behind a space and before a list in parentheses. -/
theorem identifier_behind_space (hrest : s.cursor.rest = ' ' :: (name ++ '(' :: u)) :
    ∃ d : Cursor, d.rest = '(' :: u ∧
    skipTrivia s = .ok true { s with cursor := s.cursor.advance 1 } ∧
      identifier { s with cursor := s.cursor.advance 1 } = .ok name { s with cursor := d } ∧
      skipTrivia { s with cursor := d } = .ok false { s with cursor := d } := by
  have hbegun := (Atom.word name ascii).begun.append ('(' :: u)
  have hname := Cursor.rest_advance_cons hrest
  have hopen := Cursor.rest_advance_append hname
  refine ⟨_, hopen, passes_of_some (hrest ▸ Recognizer.trivia_space hbegun.trivia), ?_, ?_⟩
  · exact identifier_of_ascii ascii (by decide) hname
  · exact passes_of_none (by rw [hopen]; exact Recognizer.trivia_eq_none rfl (by decide))

theorem inclusion_of_arguments (e : Argument) (es : List Argument)
    (hrest : s.cursor.rest =
      ' ' :: (name ++ '(' :: (listing ((e :: es).map Argument.source) ++ ')' :: u)))
    (line : Nat) :
    ∃ xs v, Directive.inclusion line s = .ok (.leaf (.inclusion name xs) line) v ∧
      xs.map Expression.text = (e :: es).map Argument.source ∧ v.cursor.rest = u ∧
      v.blockEnd = s.blockEnd := by
  obtain ⟨d, hopen, hspace, hname, hskip⟩ := identifier_behind_space ascii hrest
  obtain ⟨xs, v, hlist, htexts, hend, hblock⟩ :=
    items_arguments.list (s := { s with cursor := d }) e es hopen
  refine ⟨xs, v, ?_, htexts, hend, hblock⟩
  have hsees : (char '(' d.rest).isSome = true := by rw [hopen]; rfl
  unfold Directive.inclusion here
  simp only [bind_apply, hspace, hname, get_apply, pure_apply, hskip, sees_apply, hsees,
    if_true, hlist]

/-- A definition with an empty block. -/
theorem definition_of_presets (p : Preset) (ps : List Preset)
    (hrest : s.cursor.rest =
      ' ' ::
      (name ++ '(' :: (listing ((p :: ps).map Preset.source) ++ ')' :: ' ' :: '{' :: '\x7d' :: u)))
    (line : Nat) :
    ∃ xs v, Directive.definition block line s = .ok ⟨.definition ⟨name, xs⟩, line, []⟩ v ∧
      xs.map Parameter.outline = (p :: ps).map Preset.outline ∧ v.cursor.rest = u ∧
      v.atBlockEnd = true := by
  obtain ⟨d, hopen, hspace, hname, hskip⟩ := identifier_behind_space ascii hrest
  obtain ⟨xs, v, hlist, houtlines, hend, -⟩ :=
    items_presets.list (s := { s with cursor := d }) p ps hopen
  have hsees : (char '(' d.rest).isSome = true := by rw [hopen]; rfl
  have hgap : skipTrivia v = .ok true { v with cursor := v.cursor.advance 1 } := by
    refine passes_of_some ?_
    rw [hend]
    exact Recognizer.trivia_space (Recognizer.trivia_eq_none rfl (by decide))
  have hbrace := Cursor.rest_advance_cons hend
  have hclose := Cursor.rest_advance_cons hbrace
  have hround : listStep block true { v with cursor := (v.cursor.advance 1).advance 1 } =
      .ok ([], none) { v with cursor := (v.cursor.advance 1).advance 1 } := by
    rw [listStep_apply, Cursor.skip_of_none (by rw [hclose]; rfl)]
    exact listRound_of_end (by rw [Cursor.atEnd, Cursor.sees, hclose]; rfl)
  have hblock :=
    block_of_list (s := { v with cursor := v.cursor.advance 1 }) hbrace (.stops hround) hclose
  refine ⟨xs, _, ?_, houtlines, ?_, blockRule_block.closes _ _ _ hblock⟩
  · unfold Directive.definition
    simp only [bind_apply, hspace, hname, hskip, sees_apply, hsees, if_true, hlist, hgap,
      hblock, pure_apply]
  · exact Cursor.rest_advance_cons hclose

end

/-- The name of a directive that a space follows. -/
theorem directive_name {name u : Text} (ascii : Text.isAsciiName.starts name = true) {s : State}
    (hrest : s.cursor.rest = '@' :: (name ++ ' ' :: u)) :
    ∃ d : Cursor, d.rest = ' ' :: u ∧
    expect '@' s = .ok () { s with cursor := s.cursor.advance 1 } ∧
      identifier { s with cursor := s.cursor.advance 1 } = .ok name { s with cursor := d } := by
  have hname := Cursor.rest_advance_cons hrest
  exact ⟨_, Cursor.rest_advance_append hname, Seam.expect_of_cons hrest,
    identifier_of_ascii ascii (by decide) hname⟩

section
variable {name u : Text} (ascii : Text.isAsciiName.starts name = true) {s : State}
include ascii

theorem directive_of_arguments (e : Argument) (es : List Argument)
    (hrest : s.cursor.rest = "@include ".toList ++
      (name ++ '(' :: (listing ((e :: es).map Argument.source) ++ ')' :: u))) :
    ∃ xs v, directive block s = .ok (.leaf (.inclusion name xs) s.cursor.line) v ∧
      xs.map Expression.text = (e :: es).map Argument.source ∧ v.cursor.rest = u ∧
      v.blockEnd = s.blockEnd := by
  have hword : s.cursor.rest = '@' :: ("include".toList ++ ' ' :: _) := hrest
  obtain ⟨d, hd, hat, hdirective⟩ := directive_name (by decide) hword
  obtain ⟨xs, v, hread, hrun⟩ :=
    inclusion_of_arguments (s := { s with cursor := d }) ascii e es hd s.cursor.line
  refine ⟨xs, v, ?_, hrun⟩
  unfold directive here
  simp only [bind_apply, get_apply, pure_apply, hat, hdirective]
  exact hread

theorem directive_of_presets (p : Preset) (ps : List Preset)
    (hrest : s.cursor.rest = "@mixin ".toList ++
      (name ++
        '(' :: (listing ((p :: ps).map Preset.source) ++ ')' :: ' ' :: '{' :: '\x7d' :: u))) :
    ∃ xs v, directive block s = .ok ⟨.definition ⟨name, xs⟩, s.cursor.line, []⟩ v ∧
      xs.map Parameter.outline = (p :: ps).map Preset.outline ∧ v.cursor.rest = u ∧
      v.atBlockEnd = true := by
  have hword : s.cursor.rest = '@' :: ("mixin".toList ++ ' ' :: _) := hrest
  obtain ⟨d, hd, hat, hdirective⟩ := directive_name (by decide) hword
  obtain ⟨xs, v, hread, hrun⟩ :=
    definition_of_presets (s := { s with cursor := d }) ascii p ps hd s.cursor.line
  refine ⟨xs, v, ?_, hrun⟩
  unfold directive here
  simp only [bind_apply, get_apply, pure_apply, hat, hdirective]
  exact hread

end

/-! ### A document of one directive -/

/-- A directive that its block or a semicolon ends is a document. -/
theorem parse_of_directive {source t : Text} (hsource : source = '@' :: t) {options : Options}
    {node : Node} {v : State} (h : directive block (.start source options) = .ok node v)
    (hend : v.cursor.rest = [] ∧ v.atBlockEnd = true ∨ v.cursor.rest = [';'] ∧ v.blockEnd = none) :
    (parse source options).result = .ok ⟨.root, options.line, [node]⟩ := by
  generalize hs : State.start source options = s at h
  have hrest : s.cursor.rest = '@' :: t := by rw [← hs, ← hsource]; rfl
  have hcomment : comment s = .ok none s := by
    have hblock : Recognizer.blockComment ('@' :: t) = none := rfl
    have hline : Recognizer.lineComment ('@' :: t) = none := rfl
    rw [comment_apply, hrest, hblock, hline]
  have hdollar : char '$' s.cursor.rest = none := by rw [hrest]; rfl
  have hat : (char '@' s.cursor.rest).isSome = true := by rw [hrest]; rfl
  have hstatement : statement block s = .ok node v := by
    unfold statement
    simp only [bind_apply, sees_apply, hdollar, hat, Option.isSome_none, Bool.false_eq_true,
      if_false, if_true, h]
  have hround : listStep block false s = statementEnd false node v := by
    rw [listStep_apply, Cursor.skip_of_none (by rw [hrest]; rfl),
      listRound_of_item (by rw [Cursor.atEnd, hrest]; rfl) (head_ne hrest (by decide))]
    unfold listItem
    simp only [bind_apply, hcomment, hstatement]
  obtain ⟨w, hw, hnothing⟩ : ∃ w, listStep block false s = .ok ([node], some ()) w ∧
      w.cursor.rest = [] := by
    rw [hround, statementEnd_apply]
    -- Behind a block nothing separates statements; behind anything else the semicolon does.
    rcases hend with ⟨hnothing, hblock⟩ | ⟨hsemicolon, hblock⟩
    · rw [if_pos hblock]
      exact ⟨v, rfl, hnothing⟩
    · have hskip : v.cursor.skip Recognizer.trivia = v.cursor :=
        Cursor.skip_of_none (by rw [hsemicolon]; exact Recognizer.trivia_eq_none rfl (by decide))
      rw [if_neg (by rw [State.atBlockEnd, hblock]; simp),
        separated_of_semicolon (hskip ▸ hsemicolon), hskip]
      exact ⟨_, rfl, Cursor.rest_advance_cons hsemicolon⟩
  have hlist : Loop (fun () => listStep block false) () s (foundBefore [node] (.ok [] w)) :=
    .goesOn hw (.stops (listStep_of_end hnothing))
  rw [← hs] at hlist
  exact (parse_of_list hlist).1

end Grammar

open Grammar

/-- **A list splits at its outermost commas, and nowhere else.** The use of a block with a list of
arguments parses as a use with as many arguments, and the texts of these are the arguments as
written, whatever commas and parentheses there are in groups and interpolations. A block definition
whose parameters have such arguments as default values parses as one with these parameters, in their
order, and with the texts of the default values. -/
theorem lists_split (name : Text) (ascii : Text.isAsciiName.starts name = true) (e : Argument)
    (es : List Argument) (p : Preset) (ps : List Preset) (options : Options) :
    (∃ xs : List Expression,
      (parse ("@include ".toList ++ name ++
          '(' :: (listing ((e :: es).map Argument.source) ++ ");".toList)) options).result =
        .ok ⟨.root, options.line, [.leaf (.inclusion name xs) options.line]⟩ ∧
      xs.map Expression.text = (e :: es).map Argument.source) ∧
    ∃ xs : List Parameter,
      (parse ("@mixin ".toList ++ name ++
          '(' :: (listing ((p :: ps).map Preset.source) ++ ") \x7b\x7d".toList)) options).result =
        .ok ⟨.root, options.line, [⟨.definition ⟨name, xs⟩, options.line, []⟩]⟩ ∧
      xs.map Parameter.outline = (p :: ps).map Preset.outline := by
  constructor
  · rw [List.append_assoc]
    obtain ⟨xs, v, hdirective, htexts, hend, hblock⟩ :=
      directive_of_arguments (s := .start _ options) ascii e es rfl
    exact ⟨xs, parse_of_directive rfl hdirective (.inr ⟨hend, hblock⟩), htexts⟩
  · rw [List.append_assoc]
    obtain ⟨xs, v, hdirective, houtlines, hend, hblock⟩ :=
      directive_of_presets (s := .start _ options) ascii p ps rfl
    exact ⟨xs, parse_of_directive rfl hdirective (.inl ⟨hend, hblock⟩), houtlines⟩

/-- A group and an interpolation with commas inside, as arguments and as default values. -/
theorem lists_split_nested :
    Text.isAsciiName.starts "m".toList = true ∧
      (∃ xs : List Expression,
        (parse "@include m(a (1, (2)), #\x7b\"),\", b\x7d);".toList).result =
          .ok ⟨.root, 1, [.leaf (.inclusion "m".toList xs) 1]⟩ ∧
        xs.map Expression.text = ["a (1, (2))".toList, "#\x7b\"),\", b\x7d".toList]) ∧
      ∃ xs : List Parameter,
        (parse "@mixin m($p: a (1, (2)), $q: #\x7b\"),\", b\x7d) \x7b\x7d".toList).result =
          .ok ⟨.root, 1, [⟨.definition ⟨"m".toList, xs⟩, 1, []⟩]⟩ ∧
        xs.map Parameter.outline =
          [("p".toList, some "a (1, (2))".toList),
            ("q".toList, some "#\x7b\"),\", b\x7d".toList)] := by
  have ascii : Text.isAsciiName.starts "m".toList = true := by decide
  let one : Argument := .last (.number false ['1'] (by simp))
  let two : Argument := .last (.number false ['2'] (by simp))
  let group : Arguments := .more one (.last (.last (.group (.last two))))
  let first : Argument := .more (.word ['a'] (by decide)) (.last (.group group))
  let string : Argument := .last (.string [')', ','] (by simp))
  let second : Argument :=
    .last (.interpolation (.more string (.last (.last (.word ['b'] (by decide))))))
  obtain ⟨harguments, hparameters⟩ := lists_split "m".toList ascii first [second]
    ⟨['p'], by decide, first⟩ [⟨['q'], by decide, second⟩] {}
  exact ⟨ascii, harguments, hparameters⟩

end Stylesheet
