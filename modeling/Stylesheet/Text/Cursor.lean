import Stylesheet.Text.Basic

/-!
# Cursors

A cursor stands at a place in a source text. It holds the text before it, nearest character first,
the text after it, and the location of the place. It moves forward by characters and its location
moves with it, so a place once reached can be returned to by keeping the cursor.
-/

namespace Stylesheet

/-- A place in a document. -/
structure Location where
  /-- The line, from one in a document of its own. -/
  line : Nat
  /-- The characters since the last newline. -/
  column : Nat
  /-- The bytes since the start of the text. -/
  offset : Nat
  deriving DecidableEq, Repr

namespace Location

/-- The location behind a character. The counts have no upper bound. Counters of 64 bits agree with
them as long as the line a text starts on and its newlines are together below 2 ^ 64, and the column
it starts at and its characters are (`Cursor.Located.bounded`). -/
def step (l : Location) (c : Char) : Location :=
  if c = '\n' then ⟨l.line + 1, 0, l.offset + 1⟩ else ⟨l.line, l.column + 1, l.offset + c.utf8Size⟩

/-- The location behind a text. -/
def after (l : Location) (t : Text) : Location :=
  t.foldl step l

@[simp] theorem after_nil (l : Location) : l.after [] = l := rfl

@[simp] theorem after_cons (l : Location) (c : Char) (t : Text) :
    l.after (c :: t) = (l.step c).after t := rfl

theorem after_append (l : Location) (t u : Text) : l.after (t ++ u) = (l.after t).after u :=
  List.foldl_append

theorem step_offset (l : Location) (c : Char) : (l.step c).offset = l.offset + c.utf8Size := by
  unfold step
  split
  · next h => subst h; rfl
  · rfl

theorem after_offset (l : Location) (t : Text) :
    (l.after t).offset = l.offset + t.byteLength := by
  induction t generalizing l with
  | nil => rfl
  | cons c t ih => rw [after_cons, ih, step_offset, Text.byteLength_cons, Nat.add_assoc]

instance : ToString Location where
  toString l := toString l.line ++ ":" ++ toString l.column

end Location

/-- A place in a source text, with the text on both sides of it. -/
structure Cursor where
  /-- The text before the place, nearest character first. -/
  past : Text
  /-- The text from the place on. -/
  rest : Text
  location : Location
  /-- The number of characters from the place on. -/
  left : Nat := rest.length
  left_eq : left = rest.length := by rfl
  deriving DecidableEq

namespace Cursor

/-- The start of a text that begins at a line and column of a larger document. -/
def start (t : Text) (line column : Nat) : Cursor :=
  { past := [], rest := t, location := ⟨line, column, 0⟩ }

/-- The line of the place. -/
def line (c : Cursor) : Nat :=
  c.location.line

/-- The bytes before the place. -/
def offset (c : Cursor) : Nat :=
  c.location.offset

/-- The text before the place. -/
def consumed (c : Cursor) : Text :=
  c.past.reverse

/-- The whole text. -/
def source (c : Cursor) : Text :=
  c.consumed ++ c.rest

/-- Whether nothing is left to read. -/
def atEnd (c : Cursor) : Bool :=
  c.rest.isEmpty

/-- The place a number of characters on, or the end of the text if that comes first. -/
def advance (n : Nat) (c : Cursor) : Cursor where
  past := (c.rest.take n).reverse ++ c.past
  rest := c.rest.drop n
  location := c.location.after (c.rest.take n)
  left := c.left - n
  left_eq := by rw [List.length_drop, c.left_eq]

@[simp] theorem rest_advance (n : Nat) (c : Cursor) : (c.advance n).rest = c.rest.drop n := rfl

@[simp] theorem location_advance (n : Nat) (c : Cursor) :
    (c.advance n).location = c.location.after (c.rest.take n) := rfl

theorem consumed_advance (n : Nat) (c : Cursor) :
    (c.advance n).consumed = c.consumed ++ c.rest.take n := by
  simp [consumed, advance]

/-- A cursor stays in the same text wherever it goes. -/
@[simp] theorem source_advance (n : Nat) (c : Cursor) : (c.advance n).source = c.source := by
  rw [source, consumed_advance, rest_advance, List.append_assoc, List.take_append_drop, source]

/-- Two places are equal if they look the same: what is left follows from the text. -/
protected theorem ext {c d : Cursor} (past : c.past = d.past) (rest : c.rest = d.rest)
    (location : c.location = d.location) : c = d := by
  cases c with
  | mk _ _ _ _ h =>
    cases d with
    | mk _ _ _ _ h' =>
      cases past
      cases rest
      cases location
      cases h
      cases h'
      rfl

theorem advance_advance (n m : Nat) (c : Cursor) :
    (c.advance n).advance m = c.advance (n + m) := by
  apply Cursor.ext
  · simp [advance, ← List.append_assoc, ← List.reverse_append, ← List.take_add]
  · simp [advance]
  · simp [← Location.after_append, ← List.take_add]

/-- Whether a form of text comes next. -/
def sees (c : Cursor) (form : Recognizer) : Bool :=
  (form c.rest).isSome

/-- The place behind a form of text, if it comes next. -/
def pass? (c : Cursor) (form : Recognizer) : Option Cursor :=
  (form c.rest).map fun n => c.advance n

/-- The place behind a form of text, or the same place if it does not come next. -/
def skip (c : Cursor) (form : Recognizer) : Cursor :=
  (c.pass? form).getD c

/-- The text from an earlier place of the same text up to this one. It is read backwards, as far as
the two places are apart. -/
def textSince (c earlier : Cursor) : Text :=
  back c.past (c.offset - earlier.offset) []
where
  /-- The nearest characters of the text before a place that make up a number of bytes, in front of
  the text behind them. -/
  back : Text → Nat → Text → Text
    | x :: past, bytes + 1, behind => back past (bytes + 1 - x.utf8Size) (x :: behind)
    | _, _, behind => behind

/-! ### Byte positions

The operations below take a number of bytes, and have no answer where it falls inside a
character. -/

/-- The place a number of bytes on, or the end of the text if that comes first. -/
def advanceBytes? (c : Cursor) (n : Nat) : Option Cursor :=
  (c.rest.splitBytes? (min n c.rest.byteLength)).map fun (front, _) => c.advance front.length

/-- The character a number of bytes on. -/
def charAfter? (c : Cursor) (n : Nat) : Option Char := do
  let (_, back) ← c.rest.splitBytes? n
  back.head?

/-- The text from a byte position up to the place. A position behind the place counts as the place
itself. -/
def sliceFrom? (c : Cursor) (n : Nat) : Option Text := do
  let (_, back) ← c.consumed.splitBytes? (min n c.offset)
  return back

end Cursor
end Stylesheet
