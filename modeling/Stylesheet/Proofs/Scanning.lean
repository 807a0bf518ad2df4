import Stylesheet.Text.Pattern
import Stylesheet.Proofs.Place

/-!
# A scanner's location

A scanner is a cursor with the places that were saved on the way: it advances by bytes, tries a
literal or a pattern, saves its place, and goes back to one that it saved.  The location is kept up
to date move by move, from what each move passes.  `Scanner.located_of_run` says that nothing of the
way to a place is left in it: line, column and offset are those that the text before the place has,
however it was cut into moves and however often the scanner went back.

The invariant of a run is `Cursor.Located`: the location is the one behind the consumed text.  What
this is in newlines and characters is said once, of any text (`Location.line_after`,
`Location.column_after_of_not_mem`, `Location.column_after_newline`).
-/
namespace Stylesheet

/-! ### Cutting a text at a byte -/

/-- A text is cut where one part of it ends. -/
theorem Text.splitBytes?_append (front back : Text) :
    (front ++ back).splitBytes? front.byteLength = some (front, back) := by
  induction front with
  | nil => rw [List.nil_append, byteLength_nil, splitBytes?]
  | cons c front ih =>
    have hpos : 0 < c.utf8Size := c.utf8Size_pos
    obtain ⟨n, hn⟩ : ∃ n, c.utf8Size + byteLength front = n + 1 :=
      ⟨c.utf8Size + byteLength front - 1, by omega⟩
    have hrest : n + 1 - c.utf8Size = byteLength front := by omega
    rw [List.cons_append, byteLength_cons, hn, splitBytes?, if_pos (by omega), hrest, ih,
      Option.map_some]

/-- A cut divides the text in two, the first as long as was asked for. -/
theorem Text.append_of_splitBytes? {t front back : Text} {n : Nat}
    (h : t.splitBytes? n = some (front, back)) : t = front ++ back ∧ front.byteLength = n := by
  induction t generalizing n front with
  | nil =>
    cases n with
    | zero =>
      cases h
      exact ⟨rfl, rfl⟩
    | succ n => cases h
  | cons c t ih =>
    cases n with
    | zero =>
      cases h
      exact ⟨rfl, rfl⟩
    | succ n =>
      rw [splitBytes?] at h
      split at h
      · obtain ⟨⟨first, last⟩, hsplit, heq⟩ := Option.map_eq_some_iff.mp h
        cases heq
        obtain ⟨rfl, hlength⟩ := ih hsplit
        refine ⟨rfl, ?_⟩
        rw [byteLength_cons, hlength]
        omega
      · cases h

/-! ### The location behind a text -/

theorem Location.column_after_of_not_mem {t : Text} (h : '\n' ∉ t) (l : Location) :
    (l.after t).column = l.column + t.length := by
  induction t generalizing l with
  | nil => rfl
  | cons c t ih =>
    obtain ⟨hc, ht⟩ := not_or.mp (mt List.mem_cons.mpr h)
    rw [after_cons, ih ht, step, if_neg (Ne.symm hc), List.length_cons, Nat.add_right_comm,
      Nat.add_assoc]

/-- Where a newline was passed, the column does not depend on what stands before the last one. -/
theorem Location.column_after_newline {last : Text} (h : '\n' ∉ last) (l : Location)
    (before : Text) : (l.after (before ++ '\n' :: last)).column = last.length := by
  rw [after_append, after_cons, column_after_of_not_mem h, step, if_pos rfl, Nat.zero_add]

/-- Each character moves the column on by one at most. -/
theorem Location.column_after_le (l : Location) (t : Text) :
    (l.after t).column ≤ l.column + t.length := by
  induction t generalizing l with
  | nil => exact Nat.le_refl _
  | cons c t ih =>
    have hstep : (l.step c).column ≤ l.column + 1 := by
      rw [step]
      split
      · exact Nat.zero_le _
      · exact Nat.le_refl _
    rw [after_cons, List.length_cons]
    have hbehind := ih (l.step c)
    omega

/-! ### Located cursors -/

namespace Cursor

/-- A place in a text that starts at a line and column: its location is the one behind the text
before it. -/
structure Located (text : Text) (line column : Nat) (c : Cursor) : Prop where
  source : c.source = text
  location : c.location = (⟨line, column, 0⟩ : Location).after c.consumed

variable {text word : Text} {line column bytes : Nat} {c d : Cursor}

theorem located_start (text : Text) (line column : Nat) :
    (start text line column).Located text line column :=
  ⟨rfl, rfl⟩

theorem Located.advance (h : c.Located text line column) (n : Nat) :
    (c.advance n).Located text line column where
  source := (source_advance n c).trans h.source
  location := by rw [location_advance, consumed_advance, h.location, Location.after_append]

/-- **How large the counts of a location get.**  The line is at most as many lines further down as
the text has newlines, the column at most as many characters further on as it has, and the offset at
most the number of its bytes. -/
theorem Located.bounded (h : c.Located text line column) :
    c.location.line ≤ line + text.count '\n' ∧ c.location.column ≤ column + text.length ∧
      c.location.offset ≤ text.byteLength := by
  obtain ⟨rfl, hlocation⟩ := h
  have hfront : c.consumed <+: c.source := List.prefix_append _ _
  refine ⟨?_, ?_, ?_⟩
  · rw [hlocation, Location.line_after]
    exact Nat.add_le_add_left (hfront.sublist.count_le '\n') line
  · rw [hlocation]
    exact Nat.le_trans (Location.column_after_le _ _) (Nat.add_le_add_left hfront.length_le column)
  · rw [hlocation, Location.after_offset, Cursor.source, Text.byteLength_append, Nat.zero_add]
    exact Nat.le_add_right _ _

theorem consumed_advance_of_rest {t behind : Text} (h : c.rest = t ++ behind) :
    (c.advance t.length).consumed = c.consumed ++ t := by
  rw [consumed_advance, h, List.take_left]

/-- Moving by bytes passes that many, or all that are left if these are fewer. -/
theorem advanceBytes?_eq_some_iff : c.advanceBytes? bytes = some d ↔
    ∃ t behind : Text, c.rest = t ++ behind ∧ t.byteLength = min bytes c.rest.byteLength ∧
    d = c.advance t.length := by
  rw [advanceBytes?, Option.map_eq_some_iff]
  constructor
  · rintro ⟨⟨t, behind⟩, hsplit, rfl⟩
    obtain ⟨hrest, hlength⟩ := Text.append_of_splitBytes? hsplit
    exact ⟨t, behind, hrest, hlength, rfl⟩
  · rintro ⟨t, behind, hrest, hlength, rfl⟩
    refine ⟨(t, behind), ?_, rfl⟩
    rw [← hlength, hrest, Text.splitBytes?_append]

theorem advanceBytes?_of_le (h : c.rest.byteLength ≤ bytes) :
    c.advanceBytes? bytes = some (c.advance c.rest.length) :=
  advanceBytes?_eq_some_iff.mpr ⟨c.rest, [], (List.append_nil _).symm,
    (Nat.min_eq_right h).symm, rfl⟩

theorem pass?_literal_of_starts (h : word <+: c.rest) :
    c.pass? (Recognizer.literal word) = some (c.advance word.length) := by
  rw [pass?, Recognizer.literal, if_pos (List.isPrefixOf_iff_prefix.mpr h)]
  rfl

theorem pass?_literal_of_not_starts (h : ¬ word <+: c.rest) :
    c.pass? (Recognizer.literal word) = none := by
  rw [pass?, Recognizer.literal, if_neg (mt List.isPrefixOf_iff_prefix.mp h)]
  rfl

end Cursor

/-! ### Scanners -/

/-- A cursor and the places that were saved, in the order in which they were. -/
structure Scanner where
  cursor : Cursor
  saved : List Cursor := []

namespace Scanner

/-- What a scanner may be told to do. -/
inductive Move
  | advance (bytes : Nat)
  | tryLiteral (word : Text)
  | tryMatch (pattern : Pattern)
  | checkpoint
  | rewind (place : Nat)

/-- A scanner at the start of a text, which begins at a line and column. -/
def start (text : Text) (line column : Nat) : Scanner :=
  { cursor := .start text line column }

/-- The scanner after a move. It cannot advance into the middle of a character, nor go back to a
place that it has not saved. A try that fails is a move as well, one that leads nowhere. -/
def step (s : Scanner) : Move → Option Scanner
  | .advance bytes => (s.cursor.advanceBytes? bytes).map fun c => { s with cursor := c }
  | .tryLiteral word =>
    some { s with cursor := (s.cursor.pass? (Recognizer.literal word)).getD s.cursor }
  | .tryMatch pattern =>
    some { s with cursor := ((s.cursor.match? pattern).map Prod.snd).getD s.cursor }
  | .checkpoint => some { s with saved := s.saved ++ [s.cursor] }
  | .rewind place => s.saved[place]?.map fun c => { s with cursor := c }

/-- The scanner after one move after the other. -/
def run (s : Scanner) : List Move → Option Scanner
  | [] => some s
  | move :: moves => (s.step move).bind fun s' => s'.run moves

/-- The cursor and the saved places are located in a text. -/
def Located (text : Text) (line column : Nat) (s : Scanner) : Prop :=
  s.cursor.Located text line column ∧ ∀ c ∈ s.saved, c.Located text line column

variable {text word : Text} {line column bytes place : Nat} {s s' : Scanner} {move : Move}
  {moves : List Move} {pattern : Pattern}

theorem step_tryLiteral_of_starts (h : word <+: s.cursor.rest) :
    s.step (.tryLiteral word) = some { s with cursor := s.cursor.advance word.length } := by
  rw [step, Cursor.pass?_literal_of_starts h, Option.getD_some]

theorem step_tryLiteral_of_not_starts (h : ¬ word <+: s.cursor.rest) :
    s.step (.tryLiteral word) = some s := by
  rw [step, Cursor.pass?_literal_of_not_starts h, Option.getD_none]

theorem step_tryMatch_of_some {m : Match} (h : pattern s.cursor.rest = some m) :
    s.step (.tryMatch pattern) = some { s with cursor := s.cursor.advance m.length } := by
  rw [step, Cursor.match?, h, Option.map_some, Option.map_some, Option.getD_some]

theorem step_tryMatch_of_none (h : pattern s.cursor.rest = none) :
    s.step (.tryMatch pattern) = some s := by
  rw [step, Cursor.match?, h, Option.map_none, Option.map_none, Option.getD_none]

/-- One move keeps the cursor and the saved places located. -/
theorem Located.step (h : s.Located text line column) (hstep : s.step move = some s') :
    s'.Located text line column := by
  obtain ⟨hcursor, hsaved⟩ := h
  cases move with
  | advance bytes =>
    obtain ⟨c, hc, rfl⟩ := Option.map_eq_some_iff.mp hstep
    obtain ⟨t, behind, -, -, rfl⟩ := Cursor.advanceBytes?_eq_some_iff.mp hc
    exact ⟨hcursor.advance t.length, hsaved⟩
  | tryLiteral word =>
    by_cases hword : word <+: s.cursor.rest
    · rw [step_tryLiteral_of_starts hword] at hstep
      cases hstep
      exact ⟨hcursor.advance word.length, hsaved⟩
    · rw [step_tryLiteral_of_not_starts hword] at hstep
      cases hstep
      exact ⟨hcursor, hsaved⟩
  | tryMatch pattern =>
    cases hmatch : pattern s.cursor.rest with
    | some m =>
      rw [step_tryMatch_of_some hmatch] at hstep
      cases hstep
      exact ⟨hcursor.advance m.length, hsaved⟩
    | none =>
      rw [step_tryMatch_of_none hmatch] at hstep
      cases hstep
      exact ⟨hcursor, hsaved⟩
  | checkpoint =>
    cases hstep
    refine ⟨hcursor, fun c hc => ?_⟩
    rcases List.mem_append.mp hc with hold | hnew
    · exact hsaved c hold
    · rw [List.mem_singleton.mp hnew]
      exact hcursor
  | rewind place =>
    obtain ⟨c, hc, rfl⟩ := Option.map_eq_some_iff.mp hstep
    exact ⟨hsaved c (List.mem_of_getElem? hc), hsaved⟩

theorem Located.run (h : s.Located text line column) (hrun : s.run moves = some s') :
    s'.Located text line column := by
  induction moves generalizing s with
  | nil =>
    cases hrun
    exact h
  | cons move moves ih =>
    obtain ⟨next, hstep, hothers⟩ := Option.bind_eq_some_iff.mp hrun
    exact ih (h.step hstep) hothers

theorem located_start (text : Text) (line column : Nat) :
    (start text line column).Located text line column :=
  ⟨Cursor.located_start text line column, List.forall_mem_nil _⟩

/-- After any moves the location of a scanner is determined by the text that it has consumed, and
this text and what is left are the source. A move by bytes passes that many, or all that are left,
and always exists if it leads to the end; a try passes what it was asked for, or leaves the whole
scanner as it was.

Line and column are natural numbers here. Counters of 64 bits show the same as long as `line` and
the newlines of the text are together below 2 ^ 64, and `column` and its characters are
(`Cursor.Located.bounded`). -/
theorem located_of_run (h : (start text line column).run moves = some s) :
    let consumed := s.cursor.consumed
    let rest := s.cursor.rest
    (consumed ++ rest = text ∧ s.cursor.location.offset = consumed.byteLength) ∧
      s.cursor.location.line = line + consumed.count '\n' ∧
      ('\n' ∉ consumed → s.cursor.location.column = column + consumed.length) ∧
      (∀ before last, consumed = before ++ '\n' :: last → '\n' ∉ last →
        s.cursor.location.column = last.length) ∧
      (∀ bytes, (∀ s', s.step (.advance bytes) = some s' →
          ∃ t, s'.cursor.consumed = consumed ++ t ∧ t.byteLength = min bytes rest.byteLength) ∧
        (rest.byteLength ≤ bytes → ∃ s', s.step (.advance bytes) = some s' ∧ s'.cursor.rest = [])) ∧
      (∀ word, (¬ word <+: rest → s.step (.tryLiteral word) = some s) ∧
        (word <+: rest → ∃ s', s.step (.tryLiteral word) = some s' ∧
          s'.cursor.consumed = consumed ++ word)) ∧
      ∀ pattern : Pattern, (pattern rest = none → s.step (.tryMatch pattern) = some s) ∧
        ∀ m, pattern rest = some m →
          ∃ s', s.step (.tryMatch pattern) = some s' ∧
          s'.cursor.consumed = consumed ++ rest.take m.length := by
  intro consumed rest
  obtain ⟨hsource, hlocation⟩ := ((located_start text line column).run h).1
  refine ⟨⟨hsource, ?_⟩, ?_, fun hnone => ?_, fun before last hconsumed hlast => ?_,
    fun bytes => ⟨?_, ?_⟩, fun word => ⟨step_tryLiteral_of_not_starts, ?_⟩,
    fun pattern => ⟨step_tryMatch_of_none, ?_⟩⟩
  · rw [hlocation, Location.after_offset, Nat.zero_add]
  · rw [hlocation, Location.line_after]
  · rw [hlocation, Location.column_after_of_not_mem hnone]
  · rw [hlocation, show s.cursor.consumed = before ++ '\n' :: last from hconsumed,
      Location.column_after_newline hlast]
  · intro s' hstep
    obtain ⟨c, hc, rfl⟩ := Option.map_eq_some_iff.mp hstep
    obtain ⟨t, behind, hrest, hlength, rfl⟩ := Cursor.advanceBytes?_eq_some_iff.mp hc
    exact ⟨t, Cursor.consumed_advance_of_rest hrest, hlength⟩
  · intro hend
    refine ⟨{ s with cursor := s.cursor.advance rest.length }, ?_, List.drop_length⟩
    rw [step, Cursor.advanceBytes?_of_le hend, Option.map_some]
  · rintro ⟨behind, hrest⟩
    exact ⟨_, step_tryLiteral_of_starts ⟨behind, hrest⟩, Cursor.consumed_advance_of_rest hrest.symm⟩
  · intro m hmatch
    exact ⟨_, step_tryMatch_of_some hmatch, Cursor.consumed_advance m.length s.cursor⟩

/-- Over a newline by bytes, on by a pattern and a literal that is not there, and back to the second
of two saved places. -/
theorem located_of_run_rewind :
    let moves : List Move :=
      [.advance 2, .checkpoint, .advance 2, .checkpoint, .tryMatch .identifier,
      .tryLiteral "é".toList, .advance 9, .rewind 1]
    ∃ s, (start "é\nbc d".toList 7 3).run moves = some s ∧ s.cursor.consumed = "é\nb".toList ∧
      s.cursor.location.line = 8 ∧ s.cursor.location.column = 1 := by
  intro moves
  obtain ⟨s, hrun, hconsumed⟩ :
      ∃ s, (start "é\nbc d".toList 7 3).run moves = some s ∧ s.cursor.consumed = "é\nb".toList :=
    ⟨_, rfl, rfl⟩
  obtain ⟨-, hline, -, hcolumn, -⟩ := located_of_run hrun
  refine ⟨s, hrun, hconsumed, ?_, ?_⟩
  · rw [hline, hconsumed]
    decide
  · exact hcolumn "é".toList "b".toList (hconsumed.trans rfl) (by decide)

end Scanner
end Stylesheet
