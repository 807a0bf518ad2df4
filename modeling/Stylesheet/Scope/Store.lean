import Stylesheet.Diagnostic
import Stylesheet.Document.Node
import Stylesheet.Text.Quoted

/-!
# Scopes

A scope is a frame of variables and block definitions. Every frame but a global one lies inside
another, and a name that a frame does not have is looked up in the frame around it. The frames are
kept in a store and named by their place in it, so that a frame may be reached in several ways and a
change to it is seen through all of them. A block definition remembers the frame it was made in.

A frame is made after the frame around it, so its place is the higher one; the walk outwards relies
on that to end.
-/

namespace Stylesheet

/-! ### Tables -/

/-- Values by name, each name at most once. -/
structure Table (α : Type) where
  entries : List (Text × α) := []

namespace Table

variable {α : Type}

/-- The value of a name. -/
def get? (t : Table α) (name : Text) : Option α :=
  t.entries.lookup name

/-- Whether a name has a value. -/
def has (t : Table α) (name : Text) : Bool :=
  (t.get? name).isSome

/-- The table with a value for a name in place of any it had. -/
def insert (t : Table α) (name : Text) (value : α) : Table α :=
  ⟨(name, value) :: t.entries.filter fun entry => entry.1 != name⟩

theorem get?_insert (t : Table α) (name other : Text) (value : α) :
    (t.insert name value).get? other = if other = name then some value else t.get? other := by
  by_cases h : other = name
  · simp [get?, insert, h]
  · simp only [get?, insert, List.lookup_cons, beq_eq_false_iff_ne.mpr h, if_neg h]
    induction t.entries with
    | nil => rfl
    | cons entry entries ih =>
      obtain ⟨key, v⟩ := entry
      by_cases hk : key = name
      · have : (other == key) = false := by rw [hk]; exact beq_eq_false_iff_ne.mpr h
        simpa [List.lookup_cons, hk, beq_eq_false_iff_ne.mpr h] using ih
      · simp [List.lookup_cons, hk, ih]

/-- The names, in the order of their characters. -/
def names (t : Table α) : List Text :=
  (t.entries.map Prod.fst).mergeSort Text.atMost

end Table

/-! ### Frames -/

/-- A frame, by its place in the store. -/
structure Env where
  index : Nat
  deriving DecidableEq, Repr

/-- A block definition with the frame it was made in. -/
structure Closure where
  name : Text
  parameters : List Parameter
  body : List Node
  env : Env
  deriving DecidableEq

/-- The variables and the blocks of one scope. -/
structure Frame where
  vars : Table Expression := {}
  blocks : Table Closure := {}
  /-- The frame around this one; a global frame has none. -/
  parent : Option Env := none

/-- All frames, and the log of the bindings of blocks. -/
structure Store where
  frames : Array Frame := #[]
  events : List Event := []

namespace Store

/-- The frame of an environment. -/
def frame? (s : Store) (e : Env) : Option Frame :=
  s.frames[e.index]?

/-- Changes one frame. -/
def modifyFrame (s : Store) (e : Env) (f : Frame → Frame) : Store :=
  { s with frames := s.frames.modify e.index f }

/-- Makes a frame. -/
def allocate (s : Store) (parent : Option Env) : Env × Store :=
  (⟨s.frames.size⟩, { s with frames := s.frames.push { parent } })

/-- Makes a global frame. -/
def newGlobal (s : Store) : Env × Store :=
  s.allocate none

/-- Makes a frame inside another. -/
def newChild (s : Store) (e : Env) : Env × Store :=
  s.allocate (some e)

/-- The frame around another. -/
def parent? (s : Store) (e : Env) : Option Env := do
  (← s.frame? e).parent

/-- The frames from one outwards, itself first. -/
def chain (s : Store) (e : Env) : List Env :=
  match s.frame? e with
  | none => []
  | some frame =>
    match frame.parent with
    | none => [e]
    | some outer => if outer.index < e.index then e :: chain s outer else [e]
termination_by e.index

/-- How many frames there are around one. -/
def depth (s : Store) (e : Env) : Nat :=
  (s.chain e).length - 1

/-! ### Variables -/

/-- The value of a variable in one frame alone. -/
def localValue? (s : Store) (name : Text) (e : Env) : Option Expression := do
  (← s.frame? e).vars.get? name

/-- The nearest frame that has a variable. -/
def definer? (s : Store) (e : Env) (name : Text) : Option Env :=
  (s.chain e).find? fun e => (s.localValue? name e).isSome

/-- The value of a variable. -/
def value? (s : Store) (e : Env) (name : Text) : Option Expression :=
  (s.chain e).findSome? (s.localValue? name)

/-- Whether a variable has a value. -/
def hasVariable (s : Store) (e : Env) (name : Text) : Bool :=
  (s.definer? e name).isSome

/-- Gives a variable a value in one frame, whatever the frames around it hold. -/
def setLocal (s : Store) (e : Env) (name : Text) (value : Expression) : Store :=
  s.modifyFrame e fun frame => { frame with vars := frame.vars.insert name value }

/-- Gives a variable a value in the nearest frame that has it, or here if none has. -/
def set (s : Store) (e : Env) (name : Text) (value : Expression) : Store :=
  s.setLocal ((s.definer? e name).getD e) name value

/-! ### Blocks -/

/-- The block of a name in one frame alone. -/
def localBlock? (s : Store) (name : Text) (e : Env) : Option Closure := do
  (← s.frame? e).blocks.get? name

/-- The block of a name. -/
def block? (s : Store) (e : Env) (name : Text) : Option Closure :=
  (s.chain e).findSome? (s.localBlock? name)

/-- Binds a block to a name in one frame. -/
def bind (s : Store) (e : Env) (name : Text) (closure : Closure) : Store :=
  s.modifyFrame e fun frame => { frame with blocks := frame.blocks.insert name closure }

/-! ### Display -/

/-- A list of names, quoted. -/
def showNames (names : List Text) : String :=
  "[" ++ ", ".intercalate (names.map fun name => String.ofList name.quoted) ++ "]"

/-- A frame as text: how deep it lies, and the names it has. -/
def describe (s : Store) (e : Env) : String :=
  let frame := (s.frame? e).getD {}
  "Environment \x7b depth: " ++ toString (s.depth e) ++
    ", vars: " ++ showNames frame.vars.names ++
    ", blocks: " ++ showNames frame.blocks.names ++ " \x7d"

end Store
end Stylesheet
