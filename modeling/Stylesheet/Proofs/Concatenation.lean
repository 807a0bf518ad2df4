import Stylesheet.Proofs.Transplant

/-!
# One text behind another

A text with nothing in it that may go on in another line can be followed by a newline, a semicolon,
a newline and any other text.  Its statements are read as before, even where the last one is ended
by the semicolon and not by the end of the text, and the list goes on with the statements of the
other text (`statements_concatenate`).  Nothing of what was read before is left over but the end of
the last block, which is behind none of the statements that follow, and the warnings.
-/
namespace Stylesheet

theorem Text.byteLength_of_ascii {t : Text} (h : ∀ x ∈ t, x.toNat ≤ 0x7F) :
    t.byteLength = t.length := by
  induction t with
  | nil => rfl
  | cons x t ih =>
    have hsize : x.utf8Size = 1 := if_pos (h x List.mem_cons_self)
    rw [byteLength_cons, hsize, ih fun y hy => h y (List.mem_cons_of_mem x hy), List.length_cons,
      Nat.add_comm]

namespace Grammar

variable {source : Text} {options : Options} {ns : List Node} {u : State}

/-- A list that was read up to the end of the text ends where the text does. -/
theorem end_of_list
    (h : Loop (fun () => listStep block false) () (.start source options) (.ok ns u))
    (hend : u.cursor.rest = []) :
    u.cursor.location = .behind options.line source ∧ u.options = options := by
  have hstatements := ((progresses.statements false).ends _ _).mp h
  obtain ⟨⟨hahead, hoptions⟩, -⟩ :=
    (yields_unfold (fun _ => yields_listStep yields_block false) () _ (.refl _) rfl).of_ok
      hstatements
  obtain ⟨t, hrest, hcursor⟩ := hahead.exists_text
  rw [hend, List.append_nil] at hrest
  refine ⟨?_, hoptions⟩
  rw [hcursor, Cursor.location_advance, ← hrest, List.take_length]
  exact Location.after_eq_behind options.line source

end Grammar

namespace Seam

variable {S : Seam} {c d : Cursor}

theorem Beyond.rest (h : S.Beyond c d) : d.rest = S.more := by
  rw [h.2, Cursor.rest_advance, rest_past h.1]
  rfl

theorem Beyond.location (h : S.Beyond c d) : d.location = (c.location.step '\n').step S.mark := by
  rw [h.2, Cursor.location_advance, rest_past h.1, Cursor.location_advance,
    Cursor.rest_prolong, h.1]
  rfl

end Seam

open Grammar

/-- **Lists of statements concatenate.**  A newline, a semicolon and another text can follow a text
without quotes, parentheses and comments that may go on in another line.  The statements of the one
are followed by those of the other, as many lines and bytes further on as there are before them, and
so are the warnings. -/
theorem statements_concatenate {a b : Text} {options : Options} {first second : Node}
    (hascii : ∀ x ∈ a, x.toNat ≤ 0x7F) (hdouble : '"' ∉ a) (hsingle : '\'' ∉ a) (hparen : '(' ∉ a)
    (hcomment : ¬ ['/', '*'] <:+: a) (hfirst : (parse a options).result = .ok first)
    (hsecond : (parse b options).result = .ok second) :
    let lines := a.count '\n' + 2
    let whole := parse (a ++ "\n;\n".toList ++ b) options
    ∃ root, whole.result = .ok root ∧ root.kind = .root ∧ root.line = options.line ∧
      root.children =
        first.children ++
        second.children.map (Node.transport (Location.below lines (a.length + 3)) lines) ∧
      root.children.length = first.children.length + second.children.length ∧
      whole.warnings = (parse a options).warnings ++
      (parse b options).warnings.map (Deprecation.lower lines) := by
  intro lines whole
  obtain ⟨u, hlist, hwarnings⟩ := list_of_parse hfirst
  obtain ⟨w, hothers, hmore⟩ := list_of_parse hsecond
  let S : Seam := {
    text := a
    mark := ';'
    more := '\n' :: b
    ascii := hascii
    closed := .inl ⟨rfl, hdouble, hsingle, hparen, hcomment⟩ }
  obtain ⟨v, ends, hgoes⟩ := S.list_of_semicolon hlist rfl
  obtain ⟨hend, hoptions⟩ := end_of_list hlist ends.cursor.1
  have hbytes := Text.byteLength_of_ascii hascii
  have hrest : v.cursor.rest = '\n' :: b := ends.cursor.rest
  have hlocation : (v.cursor.advance 1).location = ⟨options.line + lines, 0, a.length + 3⟩ := by
    rw [Cursor.location_advance, hrest, ends.cursor.location, hend, ← hbytes]
    rfl
  have hended : ∀ n ∈ v.blockEnd, n < a.length + 3 := by
    intro n hn
    have hle : n ≤ a.byteLength := ends.ended n (ends.blockEnd ▸ hn)
    omega
  obtain ⟨x, hlong, -, hfound⟩ :=
    list_below hothers hrest hlocation hended (ends.options.trans hoptions) ends.rollback.2
  obtain ⟨hresult, hall⟩ := parse_of_list (hgoes _ hlong)
  rw [hfound, ends.warnings, hwarnings, hmore] at hall
  have hwhole : whole = parse (S.text ++ S.behind) options :=
    congrArg (parse · options) (List.append_assoc a "\n;\n".toList b)
  rw [hwhole]
  refine ⟨_, hresult, rfl, rfl, rfl, ?_, hall⟩
  rw [List.length_append, List.length_map]

/-- An interpolation, a deprecated reference and a declaration that only the end of the text ends,
before a ruleset with a string. -/
theorem statements_concatenate_ruleset :
    (∀ x ∈ "$a: !b; c#\x7bd\x7d: e // f".toList, x.toNat ≤ 0x7F) ∧
      '"' ∉ "$a: !b; c#\x7bd\x7d: e // f".toList ∧ '\'' ∉ "$a: !b; c#\x7bd\x7d: e // f".toList ∧
      '(' ∉ "$a: !b; c#\x7bd\x7d: e // f".toList ∧
      ¬ ['/', '*'] <:+: "$a: !b; c#\x7bd\x7d: e // f".toList ∧
      ∃ first second root, (parse "$a: !b; c#\x7bd\x7d: e // f".toList).result = .ok first ∧
        (parse "g \x7b\n  h: !i \"j\";\x7d".toList).result = .ok second ∧
        (parse "$a: !b; c#\x7bd\x7d: e // f\n;\ng \x7b\n  h: !i \"j\";\x7d".toList).result =
          .ok root ∧
        root.children =
          first.children ++ second.children.map (Node.transport (Location.below 2 24) 2) ∧
        first.children.length = 2 ∧ second.children.length = 1 ∧ root.children.length = 3 := by
  have hascii : ∀ x ∈ "$a: !b; c#\x7bd\x7d: e // f".toList, x.toNat ≤ 0x7F := by simp
  have hdouble : '"' ∉ "$a: !b; c#\x7bd\x7d: e // f".toList := by decide
  have hsingle : '\'' ∉ "$a: !b; c#\x7bd\x7d: e // f".toList := by decide
  have hparen : '(' ∉ "$a: !b; c#\x7bd\x7d: e // f".toList := by decide
  have hcomment : ¬ ['/', '*'] <:+: "$a: !b; c#\x7bd\x7d: e // f".toList := by decide +kernel
  obtain ⟨first, hfirst, htwo⟩ :
      ∃ first, (parse "$a: !b; c#\x7bd\x7d: e // f".toList).result = .ok first ∧
      decide (first.children.length = 2) = true := exists_of_parse (by decide +kernel)
  obtain ⟨second, hsecond, hone⟩ : ∃ second, (parse "g \x7b\n  h: !i \"j\";\x7d".toList).result =
      .ok second ∧
      decide (second.children.length = 1) = true := exists_of_parse (by decide +kernel)
  obtain ⟨root, hroot, -, -, hchildren, hlength, -⟩ :=
    statements_concatenate hascii hdouble hsingle hparen hcomment hfirst hsecond
  have htwo := of_decide_eq_true htwo
  have hone := of_decide_eq_true hone
  rw [htwo, hone] at hlength
  exact ⟨hascii, hdouble, hsingle, hparen, hcomment, first, second, root, hfirst, hsecond, hroot,
    hchildren, htwo, hone, hlength⟩

end Stylesheet
