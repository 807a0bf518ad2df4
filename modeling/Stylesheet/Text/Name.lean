import Stylesheet.Text.Property

/-!
# Names

A name is what an identifier, a variable or a property is called. It is made of ASCII letters,
digits, `_` and `-`, of any character beyond ASCII, and of escapes: a backslash with the character
after it, which may not end the line. An identifier is a name that does not start like a number:
after an optional `-` comes a letter, a `_`, a character beyond ASCII or an escape.
-/

namespace Stylesheet

/-- A character that stands for itself inside a name. -/
def isNameBody (c : Char) : Bool :=
  c.isAlphanum || c == '_' || c == '-' || 0x7F < c.toNat

/-- A character that stands for itself at the start of a name. -/
def isNameStart (c : Char) : Bool :=
  c.isAlpha || c == '_' || 0x7F < c.toNat

/-- A character that may follow the backslash of an escape in a name. -/
def isEscapable (c : Char) : Bool :=
  c != '\r' && c != '\n' && c != '\x0c'

/-- A character that shows a name going on. A backslash counts, whatever follows it. -/
def isNameChar (c : Char) : Bool :=
  isNameBody c || c == '\\'

namespace Text

/-- The number of characters of the longest run of name characters and escapes. -/
def nameLength : Text → Nat
  | '\\' :: c :: t => if isEscapable c then nameLength t + 2 else 0
  | c :: t => if isNameBody c then nameLength t + 1 else 0
  | [] => 0

end Text

namespace Recognizer

/-- One name character or escape. -/
def namePart : Recognizer
  | '\\' :: c :: _ => if isEscapable c then some 2 else none
  | c :: _ => if isNameBody c then some 1 else none
  | [] => none

/-- A name of at least one character or escape. -/
def name : Recognizer :=
  fun t => match t.nameLength with
    | 0 => none
    | n => some n

/-- An identifier without a leading `-`. -/
def bareIdentifier : Recognizer
  | '\\' :: c :: t => if isEscapable c then some (Text.nameLength t + 2) else none
  | c :: t => if isNameStart c then some (Text.nameLength t + 1) else none
  | [] => none

/-- An identifier. -/
def identifier : Recognizer
  | '-' :: t => (bareIdentifier t).map (· + 1)
  | t => bareIdentifier t

end Recognizer

/-- The words that are flags where a `!` precedes them. -/
inductive Flag
  /-- The declaration outranks others. -/
  | important
  /-- The assignment applies only to a variable without a value. -/
  | default
  deriving DecidableEq, Repr

namespace Flag

/-- The word of a flag, in lower case. -/
def word : Flag → Text
  | important => "important".toList
  | default => "default".toList

/-- The flag a name stands for, in any case of its letters. -/
def ofName? (name : Text) : Option Flag :=
  [important, default].find? fun flag => name.equalIgnoringCase flag.word

/-- Whether a name is a flag rather than a variable. -/
def isFlag (name : Text) : Bool :=
  (ofName? name).isSome

end Flag
end Stylesheet
