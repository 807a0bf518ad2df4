import Stylesheet.Token.Basic

/-!
# Documents

A stylesheet is a tree of nodes, each with the line it starts on and with children in the order of
the text. Selectors, names and the arguments of general directives are kept as text; values,
conditions and arguments of blocks are expressions, that is text with its tokens.
-/

namespace Stylesheet

/-- An expression: its text, without white space or comments around it, and its tokens. -/
structure Expression where
  text : Text
  tokens : List Token
  /-- The line it starts on. -/
  line : Nat
  deriving DecidableEq

/-- A parameter of a block definition, with its default value if it has one. -/
structure Parameter where
  name : Text
  default : Option Expression
  deriving DecidableEq

/-- The name and the parameters of a block definition. Its body is the children of its node. The
parameters are kept as written; two of them may have the same name. -/
structure BlockDefinition where
  name : Text
  parameters : List Parameter
  deriving DecidableEq

mutual

/-- A node of a document. -/
structure Node where
  kind : NodeKind
  /-- The line it starts on. -/
  line : Nat
  children : List Node

/-- What a node is. -/
inductive NodeKind
  /-- The whole document. -/
  | root
  /-- A directive without a form of its own, with or without a block. -/
  | atRule (name : Text) (value : Option Text)
  /-- A selector with a block. -/
  | ruleset (selector : Text)
  /-- A declaration. A group of nested declarations need not have a value of its own. -/
  | property (name : Text) (value : Option Expression) (important : Bool)
  | definition (block : BlockDefinition)
  /-- The use of a block definition. -/
  | inclusion (name : Text) (arguments : List Expression)
  /-- An assignment to a variable. A guarded one applies only if the variable has no value. -/
  | assignment (name : Text) (value : Expression) (guarded : Bool)
  /-- A comment. A silent one is not for the output. -/
  | comment (text : Text) (silent : Bool)
  | debug (value : Expression)
  | warn (value : Expression)
  /-- A branch and what to do where its condition fails. The last branch may have no condition. -/
  | branch (condition : Option Expression) (otherwise : Option Node)
  | loop (condition : Expression)

end

/-- A node without children. -/
def Node.leaf (kind : NodeKind) (line : Nat) : Node :=
  ⟨kind, line, []⟩

/-- The node with more children behind its own. -/
def Node.append (n : Node) (children : List Node) : Node :=
  { n with children := n.children ++ children }

/-! ### Equality of nodes -/

mutual

/-- Whether two nodes are equal. -/
def Node.same : Node → Node → Bool
  | ⟨k, l, ns⟩, ⟨k', l', ns'⟩ => k.same k' && l = l' && Node.sameList ns ns'

/-- Whether two kinds of node are equal. -/
def NodeKind.same : NodeKind → NodeKind → Bool
  | .root, .root => true
  | .atRule n v, .atRule n' v' => n = n' && v = v'
  | .ruleset s, .ruleset s' => s = s'
  | .property n v i, .property n' v' i' => n = n' && v = v' && i = i'
  | .definition b, .definition b' => b = b'
  | .inclusion n as, .inclusion n' as' => n = n' && as = as'
  | .assignment n v g, .assignment n' v' g' => n = n' && v = v' && g = g'
  | .comment t s, .comment t' s' => t = t' && s = s'
  | .debug v, .debug v' => v = v'
  | .warn v, .warn v' => v = v'
  | .branch c none, .branch c' none => c = c'
  | .branch c (some n), .branch c' (some n') => c = c' && n.same n'
  | .loop c, .loop c' => c = c'
  | _, _ => false

/-- Whether two lists of nodes are equal. -/
def Node.sameList : List Node → List Node → Bool
  | [], [] => true
  | n :: ns, m :: ms => n.same m && Node.sameList ns ms
  | _, _ => false

end

mutual

theorem Node.same_iff : ∀ n m : Node, n.same m = true ↔ n = m
  | ⟨k, l, ns⟩, ⟨k', l', ns'⟩ => by
    simp [Node.same, NodeKind.same_iff k k', Node.sameList_iff ns ns', and_assoc]

theorem NodeKind.same_iff : ∀ k k' : NodeKind, k.same k' = true ↔ k = k'
  | .branch _ (some n), k' => by
    cases k' with
    | branch _ o => cases o <;> simp [NodeKind.same, Node.same_iff n]
    | _ => simp [NodeKind.same]
  | .branch _ none, k' => by
    cases k' with
    | branch _ o => cases o <;> simp [NodeKind.same]
    | _ => simp [NodeKind.same]
  | .root, k' => by cases k' <;> simp [NodeKind.same]
  | .atRule .., k' => by cases k' <;> simp [NodeKind.same]
  | .ruleset _, k' => by cases k' <;> simp [NodeKind.same]
  | .property .., k' => by cases k' <;> simp [NodeKind.same, and_assoc]
  | .definition _, k' => by cases k' <;> simp [NodeKind.same]
  | .inclusion .., k' => by cases k' <;> simp [NodeKind.same]
  | .assignment .., k' => by cases k' <;> simp [NodeKind.same, and_assoc]
  | .comment .., k' => by cases k' <;> simp [NodeKind.same]
  | .debug _, k' => by cases k' <;> simp [NodeKind.same]
  | .warn _, k' => by cases k' <;> simp [NodeKind.same]
  | .loop _, k' => by cases k' <;> simp [NodeKind.same]

theorem Node.sameList_iff : ∀ ns ms : List Node, Node.sameList ns ms = true ↔ ns = ms
  | [], ms => by cases ms <;> simp [Node.sameList]
  | n :: ns, ms => by
    cases ms <;> simp [Node.sameList, Node.same_iff n, Node.sameList_iff ns]

end

instance : DecidableEq Node := fun n m => decidable_of_iff _ (Node.same_iff n m)

instance : DecidableEq NodeKind := fun k k' => decidable_of_iff _ (NodeKind.same_iff k k')

end Stylesheet
