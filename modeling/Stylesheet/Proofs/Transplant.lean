import Stylesheet.Proofs.SeamLists
import Stylesheet.Proofs.WellFormed

/-!
# A text behind a newline

A document is the list of the statements that are read from its start.  Where its text stands behind
a newline in another text, the same statements are read there, some lines further down and in the
same columns (`Grammar.list_below`).  The newline itself is white space before the first of them.
-/
namespace Stylesheet

/-! ### Locations further down -/

/-- A location some lines further down in the same column, and some bytes further on. -/
def Location.below (lines bytes : Nat) (l : Location) : Location :=
  ⟨l.line + lines, l.column, l.offset + bytes⟩

namespace Location

variable {lines bytes : Nat} {l : Location}

theorem step_below (c : Char) : (l.below lines bytes).step c = (l.step c).below lines bytes := by
  unfold step
  by_cases hc : c = '\n'
  · simp only [if_pos hc, below]
    congr 1 <;> omega
  · simp only [if_neg hc, below]
    congr 1
    omega

theorem after_below (t : Text) : (l.below lines bytes).after t = (l.after t).below lines bytes := by
  induction t generalizing l with
  | nil => rfl
  | cons c t ih => rw [after_cons, after_cons, step_below, ih]

end Location

/-- The places of a text and of one that has the same text further down, behind other statements. -/
def Replica.below {o o' : Cursor} (hrest : o'.rest = o.rest) {lines bytes : Nat}
    (hlocation : ∀ n, (o'.advance n).location = (o.advance n).location.below lines bytes)
    (stale : Option Nat) (hstale : ∀ n ∈ stale, n < o'.offset) (earlier : List Deprecation) :
    Replica :=
  .onward hrest (Location.below lines bytes) lines bytes (fun _ => rfl)
    (fun _ => rfl) hlocation stale hstale earlier

namespace Grammar

variable {source text : Text} {options : Options} {s t u : State} {ns : List Node} {nested : Bool}

/-! ### Documents and lists -/

/-- The statements of a document are the list that is read from the start of its text. -/
theorem list_of_parse {tree : Node} (h : (parse source options).result = .ok tree) :
    ∃ u, Loop (fun () => listStep block false) () (.start source options) (.ok tree.children u) ∧
      u.warnings = (parse source options).warnings := by
  unfold parse at h ⊢
  rw [document_apply, map_apply] at h ⊢
  cases hrun : statements block false (.start source options) with
  | error e u =>
    rw [hrun] at h
    cases h
  | ok ns u =>
    rw [hrun] at h
    cases h
    exact ⟨u, ((progresses.statements false).ends _ _).mpr hrun, rfl⟩

theorem parse_of_list
    (h : Loop (fun () => listStep block false) () (.start source options) (.ok ns u)) :
    (parse source options).result = .ok ⟨.root, options.line, ns⟩ ∧
      (parse source options).warnings = u.warnings := by
  unfold parse
  rw [document_apply, map_apply, ((progresses.statements false).ends _ _).mp h]
  exact ⟨rfl, rfl⟩

/-! ### Lists further down -/

/-- A newline before the first statement of a list is white space. -/
theorem listStep_of_newline (hrest : s.cursor.rest = '\n' :: text) :
    listStep block nested s = listStep block nested { s with cursor := s.cursor.advance 1 } := by
  have hblanks : s.cursor.skip Recognizer.blanks = (s.cursor.advance 1).skip Recognizer.blanks := by
    rw [Cursor.skip_blanks, Cursor.skip_blanks, Cursor.advance_advance, Cursor.rest_advance, hrest]
    refine congrArg s.cursor.advance ?_
    rw [List.takeWhile_cons_of_pos (show isBlank '\n' = true from rfl), List.length_cons,
      Nat.add_comm]
    rfl
  rw [listStep_apply, listStep_apply, hblanks]

theorem list_of_newline (hrest : s.cursor.rest = '\n' :: text)
    {r : EStateM.Result SyntaxError State (List Node)}
    (h : Loop (fun () => listStep block nested) () { s with cursor := s.cursor.advance 1 } r) :
    Loop (fun () => listStep block nested) () s r := by
  have hround : listStep block nested s = _ := listStep_of_newline hrest
  cases h with
  | stops round => exact .stops (hround.trans round)
  | fails round => exact .fails (hround.trans round)
  | goesOn round others => exact .goesOn (hround.trans round) others

/-- Where the text of a document stands further down, the states are alike. -/
theorem sameState_below {lines bytes : Nat} (hrest : t.cursor.rest = text)
    (hlocation : t.cursor.location = ⟨options.line + lines, 0, bytes⟩)
    (hended : ∀ n ∈ t.blockEnd, n < bytes) (hoptions : t.options = options)
    (hrollback : t.rollback = .position) :
    ∃ R : Replica, R.move = Location.below lines bytes ∧ R.lines = lines ∧ R.earlier = t.warnings ∧
      R.SameState (.start text options) t := by
  have hmoved :
      t.cursor.location = (State.start text options).cursor.location.below lines bytes := by
    rw [hlocation]
    show _ = Location.mk _ _ (0 + bytes)
    rw [Nat.zero_add]
    rfl
  have hplaces : ∀ n, (t.cursor.advance n).location =
      ((State.start text options).cursor.advance n).location.below lines bytes := by
    intro n
    rw [Cursor.location_advance, Cursor.location_advance, hmoved, Location.after_below, hrest]
    rfl
  have hstale : ∀ n ∈ t.blockEnd, n < t.cursor.offset := by
    rw [Cursor.offset, hlocation]
    exact hended
  exact ⟨.below hrest hplaces t.blockEnd hstale t.warnings, rfl, rfl, rfl, {
    cursor := ⟨0, (Cursor.advance_zero _).symm, (Cursor.advance_zero _).symm⟩
    options := hoptions
    blockEnd := .inr ⟨rfl, rfl⟩
    warnings := (List.append_nil _).symm
    backtracks := trivial
    rollback := hrollback }⟩

/-- **A list of statements is the same list further down.**  What was read before does not matter,
if it has closed no block behind the newline. -/
theorem list_below (h : Loop (fun () => listStep block nested) () (.start text options) (.ok ns u))
    {lines bytes : Nat} (hrest : t.cursor.rest = '\n' :: text)
    (hlocation : (t.cursor.advance 1).location = ⟨options.line + lines, 0, bytes⟩)
    (hended : ∀ n ∈ t.blockEnd, n < bytes) (hoptions : t.options = options)
    (hrollback : t.rollback = .position) :
    ∃ v, Loop (fun () => listStep block nested) () t
        (.ok (ns.map (Node.transport (Location.below lines bytes) lines)) v) ∧
      v.cursor.rest = u.cursor.rest ∧
      v.warnings = t.warnings ++ u.warnings.map (Deprecation.lower lines) := by
  have hbehind : (t.cursor.advance 1).rest = text := by
    rw [Cursor.rest_advance, hrest]
    rfl
  obtain ⟨R, hmove, hlines, hearlier, hsame⟩ := sameState_below
    (t := { t with cursor := t.cursor.advance 1 }) hbehind hlocation hended hoptions hrollback
  have hrun := Replica.follows_statements Replica.follows_block nested _ _ hsame
  rw [((progresses.statements nested).ends _ _).mp h] at hrun
  generalize hr : statements block nested { t with cursor := t.cursor.advance 1 } = r at hrun
  cases hrun with
  | @ok _ ms _ v hnodes hstates =>
    have hlist := list_of_newline hrest (((progresses.statements nested).ends _ _).mpr hr)
    have hwarnings := hstates.warnings
    rw [show ms = _ from hnodes, hmove, hlines] at hlist
    rw [hearlier, hlines] at hwarnings
    exact ⟨v, hlist, R.rest hstates.cursor, hwarnings⟩

end Grammar
end Stylesheet
