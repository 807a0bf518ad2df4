import Stylesheet.Proofs.Ordering
import Stylesheet.Proofs.Rerun

/-!
# Well-formed documents

A document that a text parses to is well formed (`wellFormed_of_parse`).  Every location in it, also
those of the tokens inside special functions, is what counting the lines and characters of the text
before it gives.  Every expression has tokens, and its text is what they take up.  The lines never
go back, and every node stands where its kind may stand.

Locations need no walk over the rules of the lexer.  Two runs from the same place at which all
places reached are called by names of their own are alike, so their tokens are the same, names
included; and what is a name and a location at once is the location of a place that was reached.
-/
namespace Stylesheet

/-! ### The locations in a token -/

mutual

/-- The location of a token and those of the tokens inside it. -/
def Token.locations : Token → List Location
  | ⟨kind, location⟩ => location :: kind.locations

/-- The locations of the tokens inside a special function. -/
def TokenKind.locations : TokenKind → List Location
  | .special pieces => Piece.locationsOf pieces
  | _ => []

/-- The locations of the tokens in a part of a special function. -/
def Piece.locations : Piece → List Location
  | .raw _ => []
  | .interpolation tokens => Token.locationsOf tokens

/-- The locations in some tokens. -/
def Token.locationsOf : List Token → List Location
  | [] => []
  | t :: ts => t.locations ++ Token.locationsOf ts

/-- The locations in some parts of a special function. -/
def Piece.locationsOf : List Piece → List Location
  | [] => []
  | p :: ps => p.locations ++ Piece.locationsOf ps

end

section
variable {move : Location → Location}

mutual

/-- A token that moving leaves alone has all its locations left alone. -/
theorem Token.move_eq_of_relocate :
    ∀ {t : Token}, t.relocate move = t → ∀ l ∈ t.locations, move l = l
  | ⟨kind, location⟩, h => by
    rw [Token.relocate, Token.mk.injEq] at h
    rw [Token.locations]
    rintro l (_ | ⟨_, hl⟩)
    · exact h.2
    · exact TokenKind.move_eq_of_relocate h.1 l hl

theorem TokenKind.move_eq_of_relocate :
    ∀ {kind : TokenKind}, kind.relocate move = kind → ∀ l ∈ kind.locations, move l = l
  | .special pieces, h => by
    rw [TokenKind.relocate, TokenKind.special.injEq] at h
    rw [TokenKind.locations]
    exact Piece.move_eq_of_relocateAll h
  | .var .., _ | .string .., _ | .number .., _ | .color _, _ | .bool _, _ | .uri _, _
  | .unicodeRange _, _ | .ident _, _ | .op _, _ => nofun

theorem Piece.move_eq_of_relocate :
    ∀ {p : Piece}, p.relocate move = p → ∀ l ∈ p.locations, move l = l
  | .raw _, _ => nofun
  | .interpolation tokens, h => by
    rw [Piece.relocate, Piece.interpolation.injEq] at h
    rw [Piece.locations]
    exact Token.move_eq_of_relocateAll h

theorem Token.move_eq_of_relocateAll :
    ∀ {ts : List Token}, Token.relocateAll move ts = ts → ∀ l ∈ Token.locationsOf ts, move l = l
  | [], _ => nofun
  | t :: ts, h => by
    rw [Token.relocateAll, List.cons.injEq] at h
    intro l hl
    rw [Token.locationsOf, List.mem_append] at hl
    rcases hl with hl | hl
    · exact Token.move_eq_of_relocate h.1 l hl
    · exact Token.move_eq_of_relocateAll h.2 l hl

theorem Piece.move_eq_of_relocateAll :
    ∀ {ps : List Piece}, Piece.relocateAll move ps = ps → ∀ l ∈ Piece.locationsOf ps, move l = l
  | [], _ => nofun
  | p :: ps, h => by
    rw [Piece.relocateAll, List.cons.injEq] at h
    intro l hl
    rw [Piece.locationsOf, List.mem_append] at hl
    rcases hl with hl | hl
    · exact Piece.move_eq_of_relocate h.1 l hl
    · exact Piece.move_eq_of_relocateAll h.2 l hl

end

end

/-! ### Counting -/

/-- The location behind a text that starts on a line, by counting its newlines, the characters since
the last one, and the bytes. -/
def Location.behind (line : Nat) (t : Text) : Location where
  line := line + t.count '\n'
  column := (t.reverse.takeWhile (· ≠ '\n')).length
  offset := t.byteLength

theorem Location.after_eq_behind (line : Nat) (t : Text) :
    (⟨line, 0, 0⟩ : Location).after t = .behind line t := by
  rw [← t.reverse_reverse]
  generalize t.reverse = r
  induction r with
  | nil => rfl
  | cons x r ih =>
    rw [List.reverse_cons, after_append, ih, after_cons, after_nil, step, behind, behind]
    split
    · next h =>
      subst h
      simp [Nat.add_assoc]
      rfl
    · next h => simp [h]

/-- A location in a text that starts on a line. -/
def Located (source : Text) (line : Nat) (l : Location) : Prop :=
  ∃ before behind : Text, source = before ++ behind ∧ l = .behind line before

theorem located_of_before {source : Text} {line : Nat} {d : Cursor}
    (h : (Cursor.start source line 0).Before d) : Located source line d.location := by
  obtain ⟨t, hrest, rfl⟩ := h.exists_text
  refine ⟨t, _, hrest, ?_⟩
  rw [Cursor.location_advance, hrest, List.take_left]
  exact Location.after_eq_behind line t

/-! ### Places with names of their own -/

theorem Token.mem_locationsOf {ts : List Token} {t : Token} (ht : t ∈ ts) {l : Location}
    (hl : l ∈ t.locations) : l ∈ Token.locationsOf ts := by
  induction ht with
  | head => exact List.mem_append_left _ hl
  | tail _ _ ih => exact List.mem_append_right _ ih

/-- The name of a location: itself if it is that of a place ahead of another, and else one that is
no location itself. -/
noncomputable def Cursor.nameOf (o : Cursor) (l : Location) : Location :=
  open Classical in
  if ∃ d, o.Before d ∧ d.location = l then l else { l with column := l.column + 1 }

theorem Cursor.nameOf_line (o : Cursor) (l : Location) : (o.nameOf l).line = l.line := by
  unfold nameOf
  split <;> rfl

theorem Cursor.nameOf_offset (o : Cursor) (l : Location) : (o.nameOf l).offset = l.offset := by
  unfold nameOf
  split <;> rfl

theorem Cursor.Before.nameOf {o d : Cursor} (h : o.Before d) : o.nameOf d.location = d.location :=
  if_pos ⟨d, h, rfl⟩

theorem Cursor.exists_of_nameOf {o : Cursor} {l : Location} (h : o.nameOf l = l) :
    ∃ d, o.Before d ∧ d.location = l := by
  unfold Cursor.nameOf at h
  split at h
  · next hplace => exact hplace
  · exact absurd (congrArg Location.column h) (Nat.succ_ne_self l.column)

/-- A run and itself, with the places of the second called by their names. -/
noncomputable def Replica.named (o : Cursor) : Replica :=
  .onward (rfl : o.rest = o.rest) o.nameOf 0 0 o.nameOf_line o.nameOf_offset
    (fun n => (Cursor.before_advance n o).nameOf.symm) none (Replica.lt_offset_of_mem_none o) []

namespace Grammar

/-- The locations in the tokens of an expression are those of places ahead of where its lexer
starts. -/
theorem exists_before_of_collectUntil {stop : Stop} {d : Cursor} {options : Options}
    {ts : List Token} {l : Lexer}
    (h : Lexer.collectUntil (Nesting.after stop) {} (.ofCursor d options) = .ok ts l) :
    ∀ t ∈ ts, ∀ x ∈ t.locations, ∃ e, d.Before e ∧ e.location = x := by
  have hplace : (Replica.named d).place d d :=
    ⟨0, (Cursor.advance_zero d).symm, (Cursor.advance_zero d).symm⟩
  have hstart : (Replica.named d).SameLexer (.ofCursor d options) (.ofCursor d options) :=
    Replica.sameLexer_ofCursor hplace rfl
  have hrun : Matched _ _ _ _ _ := Replica.simulates_collectUntil Replica.simulates_interpolation
    (Replica.after_relocate stop) {} _ _ hstart
  rw [show Lexer.Rules.collectUntil _ _ _ _ = _ from h] at hrun
  cases hrun with
  | ok answers =>
    intro t ht x hx
    have hfixed : Token.relocateAll d.nameOf ts = ts :=
      (Token.relocateAll_eq _ ts).trans answers.symm
    exact Cursor.exists_of_nameOf
      (Token.move_eq_of_relocateAll hfixed x (Token.mem_locationsOf ht hx))

theorem Written.located {source : Text} {options : Options} {e : Expression}
    (h : Written (.start source options.line 0) options e) :
    ∀ t ∈ e.tokens, ∀ l ∈ t.locations, Located source options.line l := by
  obtain ⟨stop, d, l, hd, hlexer, -⟩ := h
  intro t ht x hx
  obtain ⟨d', hahead, rfl⟩ := exists_before_of_collectUntil hlexer t ht x hx
  exact located_of_before (hd.trans hahead)

/-! ### The text of an expression -/

/-- An expression is what its tokens take up of the text: its first token starts where its text
does, on its line, and a lexer that starts there consumes its tokens and stands at the end of its
text. -/
def Spans (source : Text) (options : Options) (e : Expression) : Prop :=
  ∃ before behind : Text, source = before ++ (e.text ++ behind) ∧
    (∃ first ∈ e.tokens.head?, e.line = first.line ∧ first.location = .behind options.line before) ∧
    ∃ l, Lexer.Consumes
        (.ofCursor ((Cursor.start source options.line 0).advance before.length) options)
        e.tokens l ∧
      l.previousEnd = (Cursor.start source options.line 0).advance (before ++ e.text).length

theorem Written.spans {source : Text} {options : Options} {e : Expression}
    (h : Written (.start source options.line 0) options e) : Spans source options e := by
  obtain ⟨stop, d, l, hd, hlexer, htext, hline, htrivia, htokens⟩ := h
  obtain ⟨n, b, hconsumes, -, -, hl⟩ := (Lexer.ends_collectUntil_consumes rfl _ _).of_ok hlexer
  have hend : n.previousEnd = n.cursor := hconsumes.previousEnd htokens
  have hbehind : d.Before n.previousEnd := hend ▸ hconsumes.before rfl
  replace htext : e.text = n.previousEnd.textSince d := by rw [htext, hl]; rfl
  obtain ⟨before, hsource, rfl⟩ := hd.exists_text
  refine ⟨before, n.previousEnd.rest, ?_, ?_, n, hconsumes, ?_⟩
  · rw [htext, ← hbehind.rest_eq]
    exact hsource
  · obtain ⟨t, ts, hcons⟩ := List.exists_cons_of_ne_nil htokens
    rw [hcons] at hconsumes ⊢
    have hlocation :
        t.location = ((Cursor.start source options.line 0).advance before.length).location := by
      cases hconsumes with
      | cons first others =>
        rw [Lexer.location_of_next rfl first, Lexer.tokenStart_of_pending_none rfl,
          Lexer.skipTrivia_eq htrivia]
        rfl
    refine ⟨t, rfl, ?_, ?_⟩
    · rw [hline, Token.line, hlocation]
      rfl
    · rw [hlocation, Cursor.location_advance, hsource, List.take_left]
      exact Location.after_eq_behind options.line before
  · obtain ⟨t, ht, hadvance⟩ := hbehind.exists_text
    rw [hadvance, Cursor.textSince_advance, ht, List.take_left] at htext
    rw [hadvance, htext, Cursor.advance_advance, List.length_append]

end Grammar

/-! ### Well-formed documents -/

/-- A document that is as a text with certain options has it. -/
structure WellFormed (source : Text) (options : Options) (tree : Node) : Prop where
  /-- Every token is located in the text, also those inside special functions. -/
  located : ∀ e ∈ tree.expressions, ∀ t ∈ e.tokens, ∀ l ∈ t.locations, Located source options.line l
  /-- Every expression has tokens, and is what they take up. -/
  spans : ∀ e ∈ tree.expressions, Grammar.Spans source options e
  /-- The lines of nodes, expressions and tokens never go back. -/
  ordered : tree.lines.Pairwise (· ≤ ·)
  root : tree.kind = .root
  /-- Below the root every node stands where its kind may stand. -/
  stands : Node.AllStand tree.children

/-- **Documents are well formed.**  Their lines are natural numbers; counters of 64 bits show the
same as long as `options.line` and the newlines of the source are together below 2 ^ 64. -/
theorem wellFormed_of_parse {source : Text} {options : Options} {tree : Node}
    (h : (parse source options).result = .ok tree) : WellFormed source options tree := by
  have hwritten := written_of_parse h
  have hstart :
      (Cursor.start source options.line 0).Before (Grammar.State.start source options).cursor :=
    .refl _
  have hdocument := Grammar.climbs_document _ hstart (Nat.le_refl options.line)
  unfold parse at h
  cases hrun : Grammar.document (.start source options) with
  | error e t =>
    rw [hrun] at h
    cases h
  | ok root t =>
    rw [hrun] at h
    cases h
    obtain ⟨-, hroot, hlines, hstands⟩ := hdocument.of_ok hrun
    exact ⟨fun e he => (hwritten e he).located, fun e he => (hwritten e he).spans,
      hlines.sorted, hroot, hstands⟩

/-- A branch with another one behind it, and a special function with a token inside it. -/
theorem wellFormed_branch :
    ∃ tree, (parse "@if a\n\x7bb: calc(#\x7bc\x7d)\x7d\n@else \x7b\x7d".toList).result = .ok tree ∧
      WellFormed "@if a\n\x7bb: calc(#\x7bc\x7d)\x7d\n@else \x7b\x7d".toList {} tree ∧
      tree.lines = [1, 1, 1, 1, 2, 2, 2, 3] ∧
      tree.expressions.flatMap (fun e => Token.locationsOf e.tokens) =
        [⟨1, 4, 4⟩, ⟨2, 4, 10⟩, ⟨2, 11, 17⟩] := by
  obtain ⟨tree, htree, hlines⟩ :
      ∃ tree,
      (parse "@if a\n\x7bb: calc(#\x7bc\x7d)\x7d\n@else \x7b\x7d".toList).result = .ok tree ∧
        decide (tree.lines = [1, 1, 1, 1, 2, 2, 2, 3] ∧
          tree.expressions.flatMap (fun e => Token.locationsOf e.tokens) =
            [⟨1, 4, 4⟩, ⟨2, 4, 10⟩, ⟨2, 11, 17⟩]) = true :=
    exists_of_parse (by decide +kernel)
  exact ⟨tree, htree, wellFormed_of_parse htree, of_decide_eq_true hlines⟩

end Stylesheet
