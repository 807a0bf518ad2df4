/-!
# Source text

Source text is a list of characters, and everything that looks at it does so from the front.
A `Recognizer` answers how many characters at the front of a text have a given form; the
combinators below build the larger forms from the smaller ones, always taking the first
alternative that fits and the longest run that fits.

Positions that a reader of the output sees are counted in bytes of UTF-8, so this module also
measures a text in bytes and cuts it at a byte. A cut inside a character does not exist.
-/

namespace Stylesheet

/-- A piece of source text, as its characters. -/
abbrev Text := List Char

namespace Text

/-- The number of bytes the text takes in UTF-8. -/
def byteLength : Text → Nat
  | [] => 0
  | c :: t => c.utf8Size + byteLength t

@[simp] theorem byteLength_nil : byteLength [] = 0 := rfl

@[simp] theorem byteLength_cons (c : Char) (t : Text) :
    byteLength (c :: t) = c.utf8Size + byteLength t := rfl

@[simp] theorem byteLength_append (t u : Text) :
    byteLength (t ++ u) = byteLength t + byteLength u := by
  induction t with
  | nil => simp
  | cons c t ih => rw [List.cons_append, byteLength_cons, byteLength_cons, ih, Nat.add_assoc]

/-- The text cut after its first `n` bytes, if that is between two characters. -/
def splitBytes? : Text → Nat → Option (Text × Text)
  | t, 0 => some ([], t)
  | [], _ + 1 => none
  | c :: t, n + 1 =>
    if c.utf8Size ≤ n + 1 then
      (splitBytes? t (n + 1 - c.utf8Size)).map fun (front, back) => (c :: front, back)
    else
      none

/-- The order of texts by their characters, a text coming behind what it begins with. -/
def atMost : Text → Text → Bool
  | [], _ => true
  | _ :: _, [] => false
  | c :: t, d :: u => c.toNat < d.toNat || (c.toNat == d.toNat && atMost t u)

/-- Equality up to the case of ASCII letters. -/
def equalIgnoringCase (t u : Text) : Bool :=
  t.map Char.toLower == u.map Char.toLower

end Text

/-- A form of text: the number of characters at the front that have it, if any have. -/
abbrev Recognizer := Text → Option Nat

namespace Recognizer

/-- One character of a class. -/
def one (p : Char → Bool) : Recognizer
  | [] => none
  | c :: _ => if p c then some 1 else none

/-- The longest run of characters of a class, which may be empty. -/
def run (p : Char → Bool) : Recognizer :=
  fun t => some (t.takeWhile p).length

/-- The longest run of characters of a class, of at least one. -/
def run₁ (p : Char → Bool) : Recognizer
  | [] => none
  | c :: t => if p c then some ((t.takeWhile p).length + 1) else none

/-- A fixed text. -/
def literal (word : Text) : Recognizer :=
  fun t => if word.isPrefixOf t then some word.length else none

/-- One form and then another. -/
def andThen (first second : Recognizer) : Recognizer :=
  fun t => do
    let n ← first t
    let m ← second (t.drop n)
    return n + m

/-- The first of two forms that fits. -/
def orElse (first second : Recognizer) : Recognizer :=
  fun t => first t <|> second t

/-- A form that may be absent. -/
def optional (form : Recognizer) : Recognizer :=
  fun t => form t <|> some 0

/-- A form that fits only where the character after it is not of a class. -/
def notBefore (form : Recognizer) (p : Char → Bool) : Recognizer :=
  fun t => do
    let n ← form t
    if (t.drop n).head?.any p then none else some n

end Recognizer
end Stylesheet
