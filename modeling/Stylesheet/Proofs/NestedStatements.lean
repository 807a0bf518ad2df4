import Stylesheet.Proofs.Transplant

/-!
# Statements in a block

A name before a brace is tried as a declaration first.  There is no colon, so it is the selector of
a ruleset (`Grammar.declarationOrRuleset_of_name`).  Where the text of a document without
interpolations stands on lines of its own in the braces, the statements of the ruleset are those of
the document, a line further down (`statements_nest`): the list that ended with the text ends before
the brace.
-/
namespace Stylesheet
namespace Grammar

section
variable {name u : Text} (hname : Text.isAsciiName.starts name = true) {s t : State}
  {ns : List Node} (hrest : s.cursor.rest = name ++ '{' :: u)
include hname hrest

/-! ### A name before a brace -/

/-- A name without a colon is no declaration. -/
theorem declaration_of_name (block : Production (List Node)) :
    ∃ e, declaration block s = .error e { s with cursor := s.cursor.advance name.length } := by
  have hbrace : (s.cursor.advance name.length).rest = '{' :: u := Cursor.rest_advance_append hrest
  have htrivia : skipTrivia { s with cursor := s.cursor.advance name.length } =
      .ok false { s with cursor := s.cursor.advance name.length } :=
    passes_of_none (by rw [hbrace]; exact Recognizer.trivia_eq_none rfl (by decide))
  obtain ⟨e, hcolon⟩ :=
    expect_of_none (x := ':') (s := { s with cursor := s.cursor.advance name.length })
    (head_ne hbrace (by decide))
  have hmarked : during false (passes hack) s = .ok false s :=
    during_of_ok _ (passes_of_none (hrest ▸ hack_of_name hname))
  have hstart : here s = .ok s.cursor s := rfl
  unfold declaration
  simp only [bind_apply, during_of_ok false hstart, hmarked]
  unfold during here
  simp only [bind_apply, get_apply, pure_apply, propertyName_of_word hname (.inr rfl) hrest,
    htrivia, hcolon]
  exact ⟨_, rfl⟩

theorem pieces_of_word (inner : Production Bool) :
    repeatWhile State.size (Selector.piece inner) s =
      .ok () { s with cursor := s.cursor.advance name.length } := by
  rw [repeatWhile_apply, piece_of_namePiece (namePiece_of_word hname hrest rfl)]
  refine (if_pos (left_advance_name hname hrest)).trans ?_
  rw [repeatWhile_apply, piece_of_brace (.inl rfl) (Cursor.rest_advance_append hrest)]

theorem ruleset_of_name (block : Production (List Node)) :
    ruleset block s = ((fun ns => (⟨.ruleset name, s.cursor.line, ns⟩ : Node)) <$> block)
      { s with cursor := s.cursor.advance name.length } := by
  have htrim : name.trim = name := by
    obtain ⟨-, -, -, -, hbody⟩ := Text.exists_of_starts hname
    exact trim_of_ascii fun c hc => isBlank_of_ascii (hbody c hc)
  have hcombinator : Selector.combinator s.cursor.rest = none := by
    rw [hrest]
    exact combinator_eq_none (head?_ne_of_name hname (by decide))
      (head?_ne_of_name hname (by decide)) (head?_ne_of_name hname (by decide))
  have hselector := groupText_of_pieces hrest hcombinator (pieces_of_word hname hrest)
    (offset_lt_of_name hname hrest)
  rw [htrim] at hselector
  exact ruleset_of_groupText block hselector (Cursor.rest_advance_append hrest)

/-- The attempt to read a declaration is given up, and the name is the selector of a ruleset. -/
theorem declarationOrRuleset_of_name {block : Production (List Node)}
    (hblock : block { s with
      cursor := s.cursor.advance name.length
      backtracks := s.backtracks ++ [s.cursor.line] } = .ok ns t) :
    declarationOrRuleset block s = .ok ⟨.ruleset name, s.cursor.line, ns⟩ t := by
  obtain ⟨e, hdeclaration⟩ := declaration_of_name hname hrest block
  have hruleset := ruleset_of_name (s := { s with backtracks := s.backtracks ++ [s.cursor.line] })
    hname hrest block
  unfold declarationOrRuleset
  rw [hdeclaration]
  simp only [giveUp_moved]
  rw [hruleset, map_apply, hblock]

end

/-! ### The block behind it -/

/-- A list of statements in braces is a block. -/
theorem block_of_list {s t : State} {ns : List Node} {u v : Text} (hopen : s.cursor.rest = '{' :: u)
    (h : Loop (fun () => listStep block true) () { s with cursor := s.cursor.advance 1 } (.ok ns t))
    (hclose : t.cursor.rest = '\x7d' :: v) :
    block s = .ok ns { t with
      cursor := t.cursor.advance 1
      blockEnd := some (t.cursor.advance 1).offset } := by
  rw [block_eq]
  unfold blockBy
  simp only [bind_apply, Seam.expect_of_cons hopen, ((progresses.statements true).ends _ _).mp h,
    Seam.expect_of_cons hclose]
  rfl

/-- The state behind the brace of a ruleset whose selector is a name.  The name was read again. -/
def State.behindBrace (s : State) (name : Text) : State :=
  { s with
    cursor := (s.cursor.advance name.length).advance 1
    backtracks := s.backtracks ++ [s.cursor.line] }

/-- A ruleset up to the end of the text is a document. -/
theorem list_of_ruleset {name u : Text} (hname : Text.isAsciiName.starts name = true) {s t : State}
    {ns : List Node} (hrest : s.cursor.rest = name ++ '{' :: u)
    (h : Loop (fun () => listStep block true) () (s.behindBrace name) (.ok ns t))
    (hclose : t.cursor.rest = ['\x7d']) :
    ∃ w, Loop (fun () => listStep block false) () s (.ok [⟨.ruleset name, s.cursor.line, ns⟩] w) ∧
      w.warnings = t.warnings := by
  have hbrace : (s.cursor.advance name.length).rest = '{' :: u := Cursor.rest_advance_append hrest
  have hblock := block_of_list (s := { s with
    cursor := s.cursor.advance name.length
    backtracks := s.backtracks ++ [s.cursor.line] }) hbrace h hclose
  have hstatement := declarationOrRuleset_of_name hname hrest hblock
  have hclosed := blockRule_block.closes _ _ _ hblock
  generalize hw : ({ t with
    cursor := t.cursor.advance 1
    blockEnd := some (t.cursor.advance 1).offset } : State) = w at hstatement hclosed
  have hend : w.cursor.rest = [] := by
    rw [← hw]
    show (t.cursor.advance 1).rest = []
    rw [Cursor.rest_advance, hclose]
    rfl
  have hround : listStep block false s = .ok ([⟨.ruleset name, s.cursor.line, ns⟩], some ()) w := by
    rw [listStep_of_name hname hrest, bind_apply, hstatement]
    simp only [bind_apply, get_apply, hclosed, if_true]
    rfl
  have hlist : Loop (fun () => listStep block false) () s
      (foundBefore [⟨.ruleset name, s.cursor.line, ns⟩] (.ok [] w)) :=
    .goesOn hround (.stops (listStep_of_end hend))
  exact ⟨w, hlist, by rw [← hw]⟩

end Grammar

open Grammar

/-- **Statements mean the same nested and at top level.**  A text without interpolations that is a
document can stand in the braces of a ruleset.  Then the statements of the ruleset are those of the
document, one line and three bytes further on in the same columns, and every warning comes again a
line further down. -/
theorem statements_nest {body : Text} {options : Options} {tree : Node}
    (hascii : ∀ x ∈ body, x.toNat ≤ 0x7F) (hplain : ¬ ['#', '{'] <:+: body)
    (h : (parse body options).result = .ok tree) :
    let whole := parse ("a\x7b\n".toList ++ body ++ "\n\x7d".toList) options
    whole.result = .ok ⟨.root, options.line,
        [⟨.ruleset "a".toList, options.line,
          tree.children.map (Node.transport (Location.below 1 3) 1)⟩]⟩ ∧
      whole.warnings = (parse body options).warnings.map (Deprecation.lower 1) := by
  intro whole
  obtain ⟨u, hlist, hwarnings⟩ := list_of_parse h
  let S : Seam := {
    text := body
    mark := '\x7d'
    more := []
    ascii := hascii
    closed := .inr ⟨rfl, rfl, hplain⟩ }
  let start : State := .start ("a\x7b\n".toList ++ body ++ "\n\x7d".toList) options
  have hopen : start.cursor.rest = "a".toList ++ '{' :: '\n' :: (S.text ++ S.behind) :=
    List.append_assoc "a\x7b\n".toList body "\n\x7d".toList
  have hlocation :
      ((start.behindBrace "a".toList).cursor.advance 1).location = ⟨options.line + 1, 0, 3⟩ := rfl
  obtain ⟨v, hnested, hclose, hsame⟩ := S.list_of_brace hlist rfl
  obtain ⟨w, hblock, hend, hall⟩ :=
    list_below hnested (t := start.behindBrace "a".toList) rfl hlocation nofun rfl rfl
  obtain ⟨x, hruleset, hkept⟩ := list_of_ruleset (by decide) hopen hblock (hend.trans hclose)
  obtain ⟨hresult, hfound⟩ := parse_of_list hruleset
  refine ⟨hresult, ?_⟩
  rw [show whole.warnings = x.warnings from hfound, hkept, hall, hsame, hwarnings]
  rfl

/-- A branch, a deprecated reference, and a declaration that only the end of the text ends. -/
theorem statements_nest_branch :
    (∀ x ∈ "@if $b \x7bc: !d;\x7d\nf: g // h".toList, x.toNat ≤ 0x7F) ∧
      ¬ ['#', '{'] <:+: "@if $b \x7bc: !d;\x7d\nf: g // h".toList ∧
      ∃ tree, (parse "@if $b \x7bc: !d;\x7d\nf: g // h".toList).result = .ok tree ∧
        tree.children.map Node.line = [1, 2] ∧
        (parse ("a\x7b\n".toList ++ "@if $b \x7bc: !d;\x7d\nf: g // h".toList ++
          "\n\x7d".toList)).result =
          .ok ⟨.root, 1,
            [⟨.ruleset "a".toList, 1, tree.children.map (Node.transport (Location.below 1 3) 1)⟩]⟩ ∧
        (parse ("a\x7b\n".toList ++ "@if $b \x7bc: !d;\x7d\nf: g // h".toList ++
          "\n\x7d".toList)).warnings =
          [⟨2, "d".toList, none⟩] := by
  have hascii : ∀ x ∈ "@if $b \x7bc: !d;\x7d\nf: g // h".toList, x.toNat ≤ 0x7F := by simp
  have hplain : ¬ ['#', '{'] <:+: "@if $b \x7bc: !d;\x7d\nf: g // h".toList := by decide +kernel
  obtain ⟨tree, htree, hlines⟩ :
      ∃ tree, (parse "@if $b \x7bc: !d;\x7d\nf: g // h".toList).result = .ok tree ∧
      decide (tree.children.map Node.line = [1, 2]) = true := exists_of_parse (by decide +kernel)
  have hwarnings :
      (parse "@if $b \x7bc: !d;\x7d\nf: g // h".toList).warnings = [⟨1, "d".toList, none⟩] := by
    decide +kernel
  obtain ⟨hresult, hlower⟩ := statements_nest hascii hplain htree
  rw [hwarnings] at hlower
  exact ⟨hascii, hplain, tree, htree, of_decide_eq_true hlines, hresult, hlower⟩

end Stylesheet
