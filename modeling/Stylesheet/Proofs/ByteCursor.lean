import Stylesheet.Diagnostic
import Stylesheet.Proofs.Scanning

/-!
# Places by their bytes

A cursor holds the text on both sides of its place, so it cannot come to stand inside a character.
Here the same places are found from a whole text and a number of bytes, where much can go wrong: a
slice does not exist if one of its bounds is inside a character, behind the end of the text or on
the wrong side of the other bound (`Text.sliceBytes?`), a difference does not exist below zero
(`minus?`), and nothing goes back to a place that lies ahead (`Cursor.rewind?`).

None of it goes wrong at a cursor whose offset is the length of the text before it (`Cursor.Sited`),
as it is for every cursor that moves forward from the start of a text.  What `Cursor.advanceBy?`
does there is said for any number of bytes (`Cursor.Sited.advanceBy?_eq`); it exists exactly where
the number ends between two characters, and where `Cursor.advanceBytes?` does.  The counts of lines
and characters have no upper bound here; how large they get in a text is said by
`Cursor.Located.bounded`.
-/
namespace Stylesheet

/-- The difference of two numbers, which does not exist below zero. -/
def minus? (n m : Nat) : Option Nat :=
  if m ≤ n then some (n - m) else none

theorem minus?_of_le {n m : Nat} (h : m ≤ n) : minus? n m = some (n - m) :=
  if_pos h

namespace Text

/-! ### Slices -/

/-- The text before a byte. -/
def takeBytes? (t : Text) (n : Nat) : Option Text :=
  (t.splitBytes? n).map Prod.fst

/-- The text from a byte on. -/
def dropBytes? (t : Text) (n : Nat) : Option Text :=
  (t.splitBytes? n).map Prod.snd

/-- The text from one byte up to another. -/
def sliceBytes? (t : Text) (first last : Nat) : Option Text :=
  (t.takeBytes? last).bind fun front => front.dropBytes? first

theorem splitBytes?_zero (t : Text) : t.splitBytes? 0 = some ([], t) := by
  cases t <;> rfl

/-- Behind a first part a text is cut as its second part is. -/
theorem splitBytes?_append_add (front t : Text) (n : Nat) :
    (front ++ t).splitBytes? (front.byteLength + n) =
      (t.splitBytes? n).map fun (first, behind) => (front ++ first, behind) := by
  induction front with
  | nil =>
    rw [List.nil_append, byteLength_nil, Nat.zero_add]
    cases t.splitBytes? n <;> rfl
  | cons c front ih =>
    have hpos : 0 < c.utf8Size := c.utf8Size_pos
    obtain ⟨m, hm⟩ : ∃ m, c.utf8Size + byteLength front + n = m + 1 :=
      ⟨c.utf8Size + byteLength front + n - 1, by omega⟩
    have hbehind : m + 1 - c.utf8Size = byteLength front + n := by omega
    rw [List.cons_append, byteLength_cons, hm, splitBytes?, if_pos (by omega), hbehind, ih,
      Option.map_map]
    rfl

variable (front mid back : Text)

theorem takeBytes?_append : (front ++ back).takeBytes? front.byteLength = some front := by
  rw [takeBytes?, splitBytes?_append, Option.map_some]

theorem dropBytes?_append : (front ++ back).dropBytes? front.byteLength = some back := by
  rw [dropBytes?, splitBytes?_append, Option.map_some]

theorem sliceBytes?_append :
    (front ++ mid ++ back).sliceBytes? front.byteLength (front ++ mid).byteLength = some mid := by
  rw [sliceBytes?, takeBytes?_append, Option.bind_some, dropBytes?_append]

/-! ### Lines -/

/-- The byte at which the first newline is. -/
def firstNewline? : Text → Option Nat
  | [] => none
  | c :: t => if c = '\n' then some 0 else (firstNewline? t).map (c.utf8Size + ·)

/-- The byte at which the last newline is. -/
def lastNewline? : Text → Option Nat
  | [] => none
  | c :: t =>
    match lastNewline? t with
    | some n => some (c.utf8Size + n)
    | none => if c = '\n' then some 0 else none

/-- The text before the first newline. -/
def firstLine? (t : Text) : Option Text :=
  match t.firstNewline? with
  | some n => t.takeBytes? n
  | none => some t

/-- The text behind the last newline. -/
def lastLine? (t : Text) : Option Text :=
  match t.lastNewline? with
  | some n => t.dropBytes? (n + 1)
  | none => some t

variable {t first last : Text}

theorem firstNewline?_of_not_mem (h : '\n' ∉ t) : t.firstNewline? = none := by
  induction t with
  | nil => rfl
  | cons c t ih =>
    obtain ⟨hc, ht⟩ := not_or.mp (mt List.mem_cons.mpr h)
    rw [firstNewline?, if_neg (Ne.symm hc), ih ht, Option.map_none]

theorem firstNewline?_append (h : '\n' ∉ first) (behind : Text) :
    firstNewline? (first ++ '\n' :: behind) = some first.byteLength := by
  induction first with
  | nil => rfl
  | cons c first ih =>
    obtain ⟨hc, hfirst⟩ := not_or.mp (mt List.mem_cons.mpr h)
    rw [List.cons_append, firstNewline?, if_neg (Ne.symm hc), ih hfirst, Option.map_some,
      byteLength_cons]

theorem lastNewline?_of_not_mem (h : '\n' ∉ t) : t.lastNewline? = none := by
  induction t with
  | nil => rfl
  | cons c t ih =>
    obtain ⟨hc, ht⟩ := not_or.mp (mt List.mem_cons.mpr h)
    simp only [lastNewline?, ih ht, if_neg (Ne.symm hc)]

theorem lastNewline?_append (h : '\n' ∉ last) (before : Text) :
    lastNewline? (before ++ '\n' :: last) = some before.byteLength := by
  induction before with
  | nil =>
    simp only [List.nil_append, lastNewline?, lastNewline?_of_not_mem h, if_pos, byteLength_nil]
  | cons c before ih => simp only [List.cons_append, lastNewline?, ih, byteLength_cons]

/-- A text has no newline, or it ends with a newline and a last line. -/
theorem not_mem_or_exists_lastLine (t : Text) :
    '\n' ∉ t ∨ ∃ before last : Text, '\n' ∉ last ∧ t = before ++ '\n' :: last := by
  induction t with
  | nil => exact .inl List.not_mem_nil
  | cons c t ih =>
    rcases ih with hnone | ⟨before, last, hlast, rfl⟩
    · by_cases hc : c = '\n'
      · exact .inr ⟨[], t, hnone, by rw [hc, List.nil_append]⟩
      · refine .inl (mt List.mem_cons.mp (not_or.mpr ⟨Ne.symm hc, hnone⟩))
    · exact .inr ⟨c :: before, last, hlast, rfl⟩

theorem takeWhile_append_newline (h : '\n' ∉ first) (behind : Text) :
    (first ++ '\n' :: behind).takeWhile (· != '\n') = first := by
  induction first with
  | nil => rfl
  | cons c first ih =>
    obtain ⟨hc, hfirst⟩ := not_or.mp (mt List.mem_cons.mpr h)
    have hkeep : (c != '\n') = true := bne_iff_ne.mpr (Ne.symm hc)
    rw [List.cons_append, List.takeWhile_cons, if_pos hkeep, ih hfirst]

theorem takeWhile_of_not_mem (h : '\n' ∉ t) : t.takeWhile (· != '\n') = t := by
  induction t with
  | nil => rfl
  | cons c t ih =>
    obtain ⟨hc, ht⟩ := not_or.mp (mt List.mem_cons.mpr h)
    have hkeep : (c != '\n') = true := bne_iff_ne.mpr (Ne.symm hc)
    rw [List.takeWhile_cons, if_pos hkeep, ih ht]

/-- A newline takes one byte. -/
theorem dropBytes?_newline (before last : Text) :
    dropBytes? (before ++ '\n' :: last) (before.byteLength + 1) = some last := by
  have hbyte : before.byteLength + 1 = (before ++ ['\n']).byteLength := by
    rw [byteLength_append]
    rfl
  rw [hbyte, List.append_cons, dropBytes?_append]

theorem firstLine?_eq (t : Text) : t.firstLine? = some (t.takeWhile (· != '\n')) := by
  by_cases hmem : '\n' ∈ t
  · obtain ⟨first, behind, rfl, hfirst⟩ := List.eq_append_cons_of_mem hmem
    rw [firstLine?, firstNewline?_append hfirst, takeWhile_append_newline hfirst]
    exact takeBytes?_append _ _
  · rw [firstLine?, firstNewline?_of_not_mem hmem, takeWhile_of_not_mem hmem]

theorem lastLine?_eq (t : Text) : t.lastLine? = some (t.reverse.takeWhile (· != '\n')).reverse := by
  rcases not_mem_or_exists_lastLine t with hnone | ⟨before, last, hlast, rfl⟩
  · rw [lastLine?, lastNewline?_of_not_mem hnone,
      takeWhile_of_not_mem (mt List.mem_reverse.mp hnone), List.reverse_reverse]
  · have hrev : (before ++ '\n' :: last).reverse = last.reverse ++ '\n' :: before.reverse := by simp
    rw [hrev, takeWhile_append_newline (mt List.mem_reverse.mp hlast),
      List.reverse_reverse, lastLine?, lastNewline?_append hlast]
    exact dropBytes?_newline before last

end Text

/-! ### Places -/

/-- The column behind a text: the characters behind its last newline, or all of it on the same
line. -/
def Location.columnBehind? (l : Location) (t : Text) : Option Nat :=
  match t.lastNewline? with
  | some last => (t.dropBytes? (last + 1)).map List.length
  | none => some (l.column + t.length)

theorem Location.columnBehind?_eq (l : Location) (t : Text) :
    l.columnBehind? t = some (l.after t).column := by
  unfold columnBehind?
  rcases t.not_mem_or_exists_lastLine with hnone | ⟨before, last, hlast, rfl⟩
  · rw [Text.lastNewline?_of_not_mem hnone, column_after_of_not_mem hnone]
  · rw [Text.lastNewline?_append hlast, column_after_newline hlast]
    exact congrArg (Option.map List.length) (Text.dropBytes?_newline before last)

namespace Cursor

/-- The place in a text that a location gives by its bytes. -/
def at? (source : Text) (l : Location) : Option Cursor :=
  (source.splitBytes? l.offset).map fun parts =>
    { past := parts.1.reverse, rest := parts.2, location := l }

/-- The text from the place on. -/
def rest? (c : Cursor) : Option Text :=
  c.source.dropBytes? c.offset

/-- The text before the place. -/
def consumed? (c : Cursor) : Option Text :=
  c.source.takeBytes? c.offset

/-- Whether no bytes are left. -/
def ends (c : Cursor) : Bool :=
  c.source.byteLength ≤ c.offset

/-- The text of a number of bytes from the place on, or of all that are left if these are fewer, and
the place behind it. Its line and its column are sums that always exist; in counters of 64 bits they
do where `Location.step` says that these agree. -/
def advanceBy? (c : Cursor) (n : Nat) : Option (Text × Cursor) := do
  let stop := min (c.offset + n) c.source.byteLength
  let text ← c.source.sliceBytes? c.offset stop
  let column ← c.location.columnBehind? text
  let d ← at? c.source ⟨c.line + text.count '\n', column, stop⟩
  return (text, d)

/-- An earlier place. -/
def rewind? (c earlier : Cursor) : Option Cursor :=
  if earlier.offset ≤ c.offset then some earlier else none

/-- The text from a byte up to the place. -/
def sliceSince? (c : Cursor) (start : Nat) : Option Text :=
  c.source.sliceBytes? (min start c.offset) c.offset

/-- The cursor stands where its offset says. -/
def Sited (c : Cursor) : Prop :=
  c.offset = c.consumed.byteLength

variable {c d : Cursor}

theorem sited_start (t : Text) (line column : Nat) : (start t line column).Sited := rfl

theorem Sited.before (h : c.Sited) (hd : c.Before d) : d.Sited := by
  obtain ⟨n, rfl⟩ := hd
  rw [Sited, offset_advance, consumed_advance, Text.byteLength_append, h]

theorem Before.source_eq (h : c.Before d) : d.source = c.source := by
  obtain ⟨n, rfl⟩ := h
  exact source_advance n c

theorem Before.rewind? (h : d.Before c) : c.rewind? d = some d :=
  if_pos h.offset_le

namespace Sited

variable (h : c.Sited)
include h

/-- The text divides where the cursor stands. -/
theorem splitBytes?_source : c.source.splitBytes? c.offset = some (c.consumed, c.rest) := by
  rw [h, source, Text.splitBytes?_append]

theorem rest?_eq : c.rest? = some c.rest := by
  rw [rest?, Text.dropBytes?, h.splitBytes?_source, Option.map_some]

theorem consumed?_eq : c.consumed? = some c.consumed := by
  rw [consumed?, Text.takeBytes?, h.splitBytes?_source, Option.map_some]

theorem ends_eq : c.ends = c.atEnd := by
  have hlength : c.source.byteLength = c.offset + c.rest.byteLength := by
    rw [source, Text.byteLength_append, h]
  rw [ends, atEnd, hlength]
  cases c.rest with
  | nil => exact decide_eq_true (Nat.le_refl _)
  | cons x t =>
    refine decide_eq_false (Nat.not_le.mpr ?_)
    have hpos := x.utf8Size_pos
    rw [Text.byteLength_cons]
    omega

/-- **Moving by bytes is moving by the characters that take as many.**  There are none where the
number of bytes does not end between two characters. -/
theorem advanceBy?_eq (n : Nat) :
    c.advanceBy? n =
      (c.rest.splitBytes? (min n c.rest.byteLength)).map fun (t, _) => (t, c.advance t.length) := by
  have hstop : min (c.offset + n) c.source.byteLength =
      c.consumed.byteLength + min n c.rest.byteLength := by
    rw [source, Text.byteLength_append, h]
    omega
  have hsplit : c.source.splitBytes? (c.consumed.byteLength + min n c.rest.byteLength) =
      (c.rest.splitBytes? (min n c.rest.byteLength)).map fun (t, behind) =>
        (c.consumed ++ t, behind) :=
    Text.splitBytes?_append_add _ _ _
  unfold advanceBy?
  simp only [hstop, Text.sliceBytes?, Text.takeBytes?, hsplit]
  cases hcut : c.rest.splitBytes? (min n c.rest.byteLength) with
  | none => rfl
  | some parts =>
    obtain ⟨t, behind⟩ := parts
    obtain ⟨hrest, hlength⟩ := Text.append_of_splitBytes? hcut
    have hlocation : (⟨c.line + t.count '\n', (c.location.after t).column,
        c.consumed.byteLength + min n c.rest.byteLength⟩ : Location) = c.location.after t := by
      rw [line, ← Location.line_after, ← hlength, ← h, offset, ← Location.after_offset]
    have hplace : at? c.source (c.location.after t) = some (c.advance t.length) := by
      have hoffset :
          (c.location.after t).offset = c.consumed.byteLength + min n c.rest.byteLength := by
        rw [Location.after_offset, hlength, ← h, offset]
      rw [at?, hoffset, hsplit, hcut]
      refine congrArg some (Cursor.ext ?_ ?_ ?_)
      · show (c.consumed ++ t).reverse = (c.rest.take t.length).reverse ++ c.past
        rw [hrest, List.take_left, consumed, List.reverse_append, List.reverse_reverse]
      · rw [rest_advance, hrest, List.drop_left]
      · rw [location_advance, hrest, List.take_left]
    have htext : Text.dropBytes? (c.consumed ++ t) c.offset = some t := by
      rw [h, Text.dropBytes?_append]
    simp only [Option.map_some, Option.bind_some, htext, Option.bind_eq_bind,
      Location.columnBehind?_eq, hlocation, hplace]
    rfl

omit h in
example : (start ['é'] 1 0).advanceBy? 1 = none := rfl

/-- Moving by the bytes of some characters is moving by these characters. -/
theorem advanceBy?_take (n : Nat) :
    c.advanceBy? (Text.byteLength (c.rest.take n)) = some (c.rest.take n, c.advance n) := by
  have hle : Text.byteLength (c.rest.take n) ≤ c.rest.byteLength := by
    have hsum := congrArg Text.byteLength (List.take_append_drop n c.rest)
    rw [Text.byteLength_append] at hsum
    omega
  have hsplit := Text.splitBytes?_append (c.rest.take n) (c.rest.drop n)
  rw [List.take_append_drop] at hsplit
  rw [h.advanceBy?_eq, Nat.min_eq_left hle, hsplit, Option.map_some]
  show some (_, c.advance (c.rest.take n).length) = _
  rw [List.length_take, advance_min]

/-- It is the place that a number of bytes leads to, if it leads to one. -/
theorem advanceBy?_place (n : Nat) : (c.advanceBy? n).map Prod.snd = c.advanceBytes? n := by
  rw [h.advanceBy?_eq, advanceBytes?, Option.map_map]
  rfl

/-- The text between two places is the slice between their offsets. -/
theorem slice_between (hd : c.Before d) :
    c.source.sliceBytes? c.offset d.offset = some (d.textSince c) := by
  have hsource : c.source = c.consumed ++ d.textSince c ++ d.rest := by
    rw [List.append_assoc, ← hd.rest_eq, source]
  have hoffset : d.offset = (c.consumed ++ d.textSince c).byteLength := by
    obtain ⟨n, rfl⟩ := hd
    rw [h.before ⟨n, rfl⟩, consumed_advance, textSince_advance]
  rw [hsource, hoffset, h, Text.sliceBytes?_append]

theorem sliceSince?_eq (hd : c.Before d) : d.sliceSince? c.offset = some (d.textSince c) := by
  rw [sliceSince?, Nat.min_eq_left hd.offset_le, hd.source_eq, h.slice_between hd]

/-- A slice from a byte up to the place is a part of the text before it. -/
theorem sliceSince?_place (n : Nat) : c.sliceSince? n = c.sliceFrom? n := by
  rw [sliceSince?, Text.sliceBytes?, Text.takeBytes?, h.splitBytes?_source, Option.map_some,
    Option.bind_some, Text.dropBytes?, sliceFrom?]
  cases c.consumed.splitBytes? (min n c.offset) <;> rfl

end Sited
end Cursor

/-! ### Errors -/

namespace Context

/-- The text before a place, as an error shows it. -/
def before? (consumed : Text) : Option Text := do
  let trimmed := (consumed.reverse.dropWhile isBlank).reverse
  let behind ← consumed.dropBytes? (Text.byteLength trimmed)
  let line ← Text.lastLine? (if behind.contains '\n' then trimmed else consumed)
  if limit < line.length then
    let skipped ← minus? line.length kept
    return ['.', '.', '.'] ++ line.drop skipped
  else
    return line

/-- The text after a place, as an error shows it. -/
def found? (rest : Text) : Option Text := do
  let trimmed := rest.dropWhile isBlank
  let blanks ← minus? rest.byteLength (Text.byteLength trimmed)
  let front ← rest.takeBytes? blanks
  let line ← Text.firstLine? (if front.contains '\n' then trimmed else rest)
  return shorten line

theorem before?_eq (c : Cursor) : before? c.consumed = some (before c) := by
  have hsplit :
      c.consumed = (c.past.dropWhile isBlank).reverse ++ (c.past.takeWhile isBlank).reverse := by
    rw [← List.reverse_append, List.takeWhile_append_dropWhile, Cursor.consumed]
  have hbehind : c.consumed.dropBytes? (Text.byteLength (c.past.dropWhile isBlank).reverse) =
      some (c.past.takeWhile isBlank).reverse := by
    rw [hsplit, Text.dropBytes?_append]
  have hline : Text.lastLine? (if (c.past.takeWhile isBlank).reverse.contains '\n' then
      (c.past.dropWhile isBlank).reverse else c.consumed) = some (nearestLine c.past).reverse := by
    rw [Text.lastLine?_eq, List.contains_reverse, nearestLine, Cursor.consumed]
    split <;> rw [List.reverse_reverse]
  unfold before? before shorten
  simp only [Cursor.consumed, List.reverse_reverse] at hbehind hline ⊢
  simp only [hbehind, hline, Option.bind_eq_bind, Option.bind_some, List.length_reverse]
  split
  · next hlong =>
    rw [minus?_of_le (Nat.le_of_lt (Nat.lt_trans (by decide) hlong)), Option.bind_some,
      List.reverse_append, List.reverse_take]
    rfl
  · rfl

theorem found?_eq (c : Cursor) : found? c.rest = some (found c) := by
  have hsplit : c.rest = c.rest.takeWhile isBlank ++ c.rest.dropWhile isBlank :=
    List.takeWhile_append_dropWhile.symm
  have hlength := congrArg Text.byteLength hsplit
  rw [Text.byteLength_append] at hlength
  have hblanks : minus? c.rest.byteLength (Text.byteLength (c.rest.dropWhile isBlank)) =
      some (Text.byteLength (c.rest.takeWhile isBlank)) := by
    rw [minus?_of_le (by omega), hlength, Nat.add_sub_cancel]
  have hfront : c.rest.takeBytes? (Text.byteLength (c.rest.takeWhile isBlank)) =
      some (c.rest.takeWhile isBlank) := by
    have htake := Text.takeBytes?_append (c.rest.takeWhile isBlank) (c.rest.dropWhile isBlank)
    rwa [← hsplit] at htake
  unfold found?
  simp only [hblanks, hfront, Option.bind_eq_bind, Option.bind_some, Text.firstLine?_eq]
  rfl

end Context

/-- The error of finding something else at a place than what was expected there. -/
def Cursor.unexpected? (c : Cursor) (expected : String) : Option SyntaxError := do
  let before ← Context.before? (← c.consumed?)
  let found ← Context.found? (← c.rest?)
  return ⟨.unexpected before expected found, c.line⟩

theorem Cursor.Sited.unexpected?_eq {c : Cursor} (h : c.Sited) (expected : String) :
    c.unexpected? expected = some (c.unexpected expected) := by
  unfold unexpected?
  rw [h.consumed?_eq, h.rest?_eq]
  simp only [Option.bind_eq_bind, Option.bind_some, Context.before?_eq, Context.found?_eq]
  rfl

end Stylesheet
