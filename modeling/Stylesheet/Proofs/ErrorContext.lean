import Stylesheet.Proofs.ByteCursor

/-!
# The context of an error

An error shows the text on both sides of its place, of each side one line at most and of a line not
more than what fits.  White space that separates the place from a line further off does not count.
`Context.LineBefore` and `Context.LineAfter` say which lines these are by cutting the text, and each
text has one of either kind.  The two are mirror images, and an error shows the mirror image of the
line that reading backwards gives (`Context.lineBefore_iff`).
-/
namespace Stylesheet
namespace Context

variable {t line : Text}

/-! ### Lines -/

/-- A text is the first line of another: a newline ends it, or nothing is behind it. -/
def FirstLine (t line : Text) : Prop :=
  ∃ behind : Text, t = line ++ behind ∧ '\n' ∉ line ∧ (behind = [] ∨ behind.head? = some '\n')

/-- A text is the last line of another: it begins behind a newline, or nothing is before it. -/
def LastLine (t line : Text) : Prop :=
  ∃ before : Text, t = before ++ line ∧ '\n' ∉ line ∧ (before = [] ∨ before.getLast? = some '\n')

/-- The line behind a place with the text `t` behind it.  White space right behind the place does
not count if there is a newline in it. -/
def LineAfter (t line : Text) : Prop :=
  ∃ blanks kept : Text, t = blanks ++ kept ∧ (∀ x ∈ blanks, isBlank x = true) ∧
    (∀ x ∈ kept.head?, isBlank x = false) ∧ FirstLine (if '\n' ∈ blanks then kept else t) line

/-- The line before a place with the text `t` before it.  White space right before the place does
not count if there is a newline in it. -/
def LineBefore (t line : Text) : Prop :=
  ∃ kept blanks : Text, t = kept ++ blanks ∧ (∀ x ∈ blanks, isBlank x = true) ∧
    (∀ x ∈ kept.getLast?, isBlank x = false) ∧ LastLine (if '\n' ∈ blanks then kept else t) line

theorem firstLine_iff : FirstLine t line ↔ line = t.takeWhile (· != '\n') := by
  constructor
  · rintro ⟨behind, rfl, hline, rfl | hbehind⟩
    · rw [List.append_nil, Text.takeWhile_of_not_mem hline]
    · obtain ⟨others, rfl⟩ := List.head?_eq_some_iff.mp hbehind
      exact (Text.takeWhile_append_newline hline others).symm
  · rintro rfl
    by_cases hmem : '\n' ∈ t
    · obtain ⟨first, behind, rfl, hfirst⟩ := List.eq_append_cons_of_mem hmem
      rw [Text.takeWhile_append_newline hfirst]
      exact ⟨'\n' :: behind, rfl, hfirst, .inr rfl⟩
    · rw [Text.takeWhile_of_not_mem hmem]
      exact ⟨[], (List.append_nil t).symm, hmem, .inl rfl⟩

/-- White space at the front of a text can be cut off in one way only. -/
theorem blanks_eq {blanks kept : Text} (hblanks : ∀ x ∈ blanks, isBlank x = true)
    (hkept : ∀ x ∈ kept.head?, isBlank x = false) :
    (blanks ++ kept).takeWhile isBlank = blanks ∧ (blanks ++ kept).dropWhile isBlank = kept := by
  have hnone : kept.takeWhile isBlank = [] ∧ kept.dropWhile isBlank = kept := by
    cases kept with
    | nil => exact ⟨rfl, rfl⟩
    | cons x kept =>
      have hx : ¬ isBlank x = true := Bool.eq_false_iff.mp (hkept x rfl)
      rw [List.takeWhile_cons_of_neg hx, List.dropWhile_cons_of_neg hx]
      exact ⟨rfl, rfl⟩
  rw [List.takeWhile_append_of_pos hblanks, List.dropWhile_append_of_pos hblanks, hnone.1, hnone.2,
    List.append_nil]
  exact ⟨rfl, rfl⟩

/-- The line behind a place is the one that an error shows. -/
theorem lineAfter_iff : LineAfter t line ↔ line = nearestLine t := by
  have hcut : t.takeWhile isBlank ++ t.dropWhile isBlank = t := List.takeWhile_append_dropWhile
  constructor
  · rintro ⟨blanks, kept, rfl, hblanks, hkept, hline⟩
    obtain ⟨htake, hdrop⟩ := blanks_eq hblanks hkept
    rw [nearestLine, htake, hdrop]
    simpa using firstLine_iff.mp hline
  · rintro rfl
    refine ⟨t.takeWhile isBlank, t.dropWhile isBlank, hcut.symm,
      List.all_eq_true.mp List.all_takeWhile, fun x hx => ?_, firstLine_iff.mpr ?_⟩
    · have hhead := List.head?_dropWhile_not isBlank t
      rw [Option.mem_def.mp hx] at hhead
      simpa using hhead
    · simp [nearestLine]

/-! ### The mirror image -/

theorem lastLine_iff : LastLine t line ↔ FirstLine t.reverse line.reverse := by
  constructor
  · rintro ⟨before, rfl, hline, hbefore⟩
    refine ⟨before.reverse, List.reverse_append, mt List.mem_reverse.mp hline, ?_⟩
    rwa [List.reverse_eq_nil_iff, List.head?_reverse]
  · rintro ⟨behind, ht, hline, hbehind⟩
    refine ⟨behind.reverse, ?_, mt List.mem_reverse.mpr hline, ?_⟩
    · rw [← List.reverse_reverse t, ht, List.reverse_append, List.reverse_reverse]
    · rwa [List.reverse_eq_nil_iff, List.getLast?_reverse]

theorem lineBefore_reverse : LineBefore t line ↔ LineAfter t.reverse line.reverse := by
  constructor
  · rintro ⟨kept, blanks, rfl, hblanks, hkept, hline⟩
    refine ⟨blanks.reverse, kept.reverse, List.reverse_append,
      fun x hx => hblanks x (List.mem_reverse.mp hx), ?_, ?_⟩
    · rwa [List.head?_reverse]
    · rw [lastLine_iff] at hline
      simpa only [List.mem_reverse, apply_ite List.reverse] using hline
  · rintro ⟨blanks, kept, ht, hblanks, hkept, hline⟩
    have htext : t = kept.reverse ++ blanks.reverse := by
      rw [← List.reverse_append, ← ht, List.reverse_reverse]
    refine ⟨kept.reverse, blanks.reverse, htext,
      fun x hx => hblanks x (List.mem_reverse.mp hx), ?_, ?_⟩
    · rwa [List.getLast?_reverse]
    · rw [lastLine_iff]
      simpa only [List.mem_reverse, apply_ite List.reverse, List.reverse_reverse] using hline

/-- The line before a place is the one that an error shows. -/
theorem lineBefore_iff {c : Cursor} :
    LineBefore c.consumed line ↔ line = (nearestLine c.past).reverse := by
  rw [lineBefore_reverse, lineAfter_iff, Cursor.consumed, List.reverse_reverse, List.reverse_eq_iff]

/-! ### Long lines -/

/-- A line that does not fit is shown by its front. -/
theorem shorten_eq (t : Text) :
    shorten t = if t.length ≤ 18 then t else t.take 15 ++ "...".toList := by
  have hdots : "...".toList = ['.', '.', '.'] := by decide
  unfold shorten limit kept
  rw [hdots]
  by_cases hfits : t.length ≤ 18
  · rw [if_pos hfits, if_neg (Nat.not_lt_of_le hfits)]
  · rw [if_neg hfits, if_pos (Nat.lt_of_not_le hfits)]

/-- Shown backwards, a line that does not fit is shown by its end. -/
theorem reverse_shorten (t : Text) :
    (shorten t.reverse).reverse =
      if t.length ≤ 18 then t else "...".toList ++ t.drop (t.length - 15) := by
  have hdots : "...".toList.reverse = "...".toList := by decide
  rw [shorten_eq, apply_ite List.reverse, List.reverse_append, List.reverse_reverse, hdots,
    List.reverse_take, List.reverse_reverse, List.length_reverse]

theorem length_shorten_le (t : Text) : (shorten t).length ≤ limit := by
  unfold shorten
  split
  · rw [List.length_append, List.length_take]
    show min 15 t.length + 3 ≤ 18
    omega
  · exact Nat.le_of_not_lt ‹_›

theorem not_mem_shorten (h : '\n' ∉ t) : '\n' ∉ shorten t := by
  unfold shorten
  split
  · rw [List.mem_append, not_or]
    exact ⟨fun hmem => h (List.mem_of_mem_take hmem), by decide⟩
  · exact h

theorem not_mem_nearestLine (t : Text) : '\n' ∉ nearestLine t := by
  intro hmem
  have hkeep : (nearestLine t).all (· != '\n') = true := List.all_takeWhile
  exact absurd (List.all_eq_true.mp hkeep '\n' hmem) (by decide)

/-- **The context of an error.**  On each side of the place there is one line that counts, and the
error shows it if it has at most 18 characters, and else the 15 of them that are nearest to the
place, with dots for the others.  So there is no newline in what is shown, and no more than 18
characters. -/
theorem unexpected_shows (c : Cursor) (expected : String) :
    ∃ B A before found : Text,
      (∀ line, LineBefore c.consumed line ↔ line = B) ∧ (∀ line, LineAfter c.rest line ↔ line = A) ∧
      before = (if B.length ≤ 18 then B else "...".toList ++ B.drop (B.length - 15)) ∧
      found = (if A.length ≤ 18 then A else A.take 15 ++ "...".toList) ∧
      '\n' ∉ before ∧ before.length ≤ 18 ∧ '\n' ∉ found ∧ found.length ≤ 18 ∧
      (c.unexpected expected).line = c.line ∧
      (c.unexpected expected).message = "Invalid CSS after \"" ++ String.ofList before ++
        "\": expected " ++ expected ++ ", was \"" ++ String.ofList found ++ "\"" := by
  refine ⟨(nearestLine c.past).reverse, nearestLine c.rest, Context.before c, Context.found c,
    fun line => lineBefore_iff, fun line => lineAfter_iff, ?_, shorten_eq _, ?_, ?_,
    not_mem_shorten (not_mem_nearestLine _), length_shorten_le _, rfl, rfl⟩
  · rw [← reverse_shorten, List.reverse_reverse]
    rfl
  · exact mt List.mem_reverse.mp (not_mem_shorten (not_mem_nearestLine _))
  · rw [Context.before, List.length_reverse]
    exact length_shorten_le _

end Context
end Stylesheet
