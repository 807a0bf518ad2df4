import Stylesheet.Grammar.Directive

/-!
# Documents with their places moved

The same text at another place gives the same tokens, only elsewhere.  Relocating a token, an
expression or a node moves every location in it and leaves all else alone, at any depth: the tokens
inside a special function, the arguments of a block, the branches behind a branch.
-/
namespace Stylesheet

variable (move : Location → Location)

/-! ### Tokens -/

mutual

/-- A token with its place moved, and the places of the tokens inside it. -/
def Token.relocate : Token → Token
  | ⟨kind, location⟩ => ⟨kind.relocate, move location⟩

/-- What a token is, with the places of the tokens inside it moved. -/
def TokenKind.relocate : TokenKind → TokenKind
  | .special pieces => .special (Piece.relocateAll pieces)
  | kind => kind

/-- A part of a special function with the places of its tokens moved. -/
def Piece.relocate : Piece → Piece
  | .raw text => .raw text
  | .interpolation tokens => .interpolation (Token.relocateAll tokens)

/-- Some tokens with their places moved. -/
def Token.relocateAll : List Token → List Token
  | [] => []
  | t :: ts => t.relocate :: Token.relocateAll ts

/-- Some parts of a special function with their places moved. -/
def Piece.relocateAll : List Piece → List Piece
  | [] => []
  | p :: ps => p.relocate :: Piece.relocateAll ps

end

theorem Token.relocateAll_eq (ts : List Token) :
    Token.relocateAll move ts = ts.map (Token.relocate move) := by
  induction ts with
  | nil => rfl
  | cons t ts ih => rw [Token.relocateAll, ih, List.map_cons]

theorem Piece.relocateAll_eq (ps : List Piece) :
    Piece.relocateAll move ps = ps.map (Piece.relocate move) := by
  induction ps with
  | nil => rfl
  | cons p ps ih => rw [Piece.relocateAll, ih, List.map_cons]

@[simp] theorem Token.kind_relocate (t : Token) :
    (t.relocate move).kind = t.kind.relocate move := by
  cases t
  rw [Token.relocate]

@[simp] theorem Token.location_relocate (t : Token) :
    (t.relocate move).location = move t.location := by
  cases t
  rw [Token.relocate]

/-- Only a special function has places inside it. -/
theorem TokenKind.relocate_eq {kind : TokenKind} (h : ∀ ps, kind ≠ .special ps) :
    kind.relocate move = kind := by
  cases kind with
  | special ps => exact absurd rfl (h ps)
  | _ => rfl

theorem TokenKind.relocate_special (ps : List Piece) :
    (TokenKind.special ps).relocate move = .special (ps.map (Piece.relocate move)) := by
  rw [TokenKind.relocate, Piece.relocateAll_eq]

@[simp] theorem Token.isOp_relocate (t : Token) (o : Op) : (t.relocate move).isOp o = t.isOp o := by
  unfold Token.isOp
  rw [Token.kind_relocate]
  cases t.kind <;> rfl

/-- Texts side by side are joined wherever the tokens between them are. -/
theorem Piece.join_relocate (ps : List Piece) :
    Piece.join (ps.map (Piece.relocate move)) = (Piece.join ps).map (Piece.relocate move) := by
  induction ps with
  | nil => rfl
  | cons p ps ih =>
    cases p with
    | interpolation ts => simp [Piece.relocate, Piece.join, ih]
    | raw t =>
      simp only [List.map_cons, Piece.relocate, Piece.join, ih]
      cases Piece.join ps with
      | nil => simp [Piece.relocate]
      | cons q qs => cases q <;> simp [Piece.relocate]

/-! ### Expressions and nodes -/

/-- An expression with the places of its tokens moved. -/
def Expression.relocate (e : Expression) : Expression :=
  { e with tokens := e.tokens.map (Token.relocate move) }

/-- A parameter with the places in its default value moved. -/
def Parameter.relocate (p : Parameter) : Parameter :=
  { p with default := p.default.map (Expression.relocate move) }

/-- A block definition with the places in its parameters moved. -/
def BlockDefinition.relocate (d : BlockDefinition) : BlockDefinition :=
  { d with parameters := d.parameters.map (Parameter.relocate move) }

mutual

/-- A node with all places in it and below it moved. -/
def Node.relocate : Node → Node
  | ⟨kind, line, children⟩ => ⟨kind.relocate, line, Node.relocateAll children⟩

/-- What a node is, with all places in it moved, those in the branches behind it included. -/
def NodeKind.relocate : NodeKind → NodeKind
  | .property name value important =>
    .property name (value.map (Expression.relocate move)) important
  | .definition block => .definition (block.relocate move)
  | .inclusion name arguments => .inclusion name (arguments.map (Expression.relocate move))
  | .assignment name value guarded => .assignment name (value.relocate move) guarded
  | .debug value => .debug (value.relocate move)
  | .warn value => .warn (value.relocate move)
  | .branch condition none => .branch (condition.map (Expression.relocate move)) none
  | .branch condition (some otherwise) =>
    .branch (condition.map (Expression.relocate move)) (some otherwise.relocate)
  | .loop condition => .loop (condition.relocate move)
  | kind => kind

/-- Some nodes with all places in them moved. -/
def Node.relocateAll : List Node → List Node
  | [] => []
  | n :: ns => n.relocate :: Node.relocateAll ns

end

/-! ### Further down in another document -/

section
variable (lines : Nat)

/-- A warning a number of lines further down. -/
def Deprecation.lower (d : Deprecation) : Deprecation :=
  { d with line := d.line + lines }

/-- An expression with the places of its tokens moved, and its line a number of lines further
down. -/
def Expression.transport (e : Expression) : Expression :=
  { e with tokens := e.tokens.map (Token.relocate move), line := e.line + lines }

/-- A parameter with its default value transported. -/
def Parameter.transport (p : Parameter) : Parameter :=
  { p with default := p.default.map (Expression.transport move lines) }

/-- A block definition with its parameters transported. -/
def BlockDefinition.transport (d : BlockDefinition) : BlockDefinition :=
  { d with parameters := d.parameters.map (Parameter.transport move lines) }

mutual

/-- A node with all places in it and below it moved, and all lines a number of lines further
down. -/
def Node.transport : Node → Node
  | ⟨kind, line, children⟩ => ⟨kind.transport, line + lines, Node.transportAll children⟩

/-- What a node is, with all that is in it transported, the branches behind it included. -/
def NodeKind.transport : NodeKind → NodeKind
  | .property name value important =>
    .property name (value.map (Expression.transport move lines)) important
  | .definition block => .definition (block.transport move lines)
  | .inclusion name arguments => .inclusion name (arguments.map (Expression.transport move lines))
  | .assignment name value guarded => .assignment name (value.transport move lines) guarded
  | .debug value => .debug (value.transport move lines)
  | .warn value => .warn (value.transport move lines)
  | .branch condition none => .branch (condition.map (Expression.transport move lines)) none
  | .branch condition (some otherwise) =>
    .branch (condition.map (Expression.transport move lines)) (some otherwise.transport)
  | .loop condition => .loop (condition.transport move lines)
  | kind => kind

/-- Some nodes transported. -/
def Node.transportAll : List Node → List Node
  | [] => []
  | n :: ns => n.transport :: Node.transportAll ns

end

theorem Node.transportAll_eq (ns : List Node) :
    Node.transportAll move lines ns = ns.map (Node.transport move lines) := by
  induction ns with
  | nil => rfl
  | cons n ns ih => rw [Node.transportAll, ih, List.map_cons]

theorem Node.transport_eq (kind : NodeKind) (line : Nat) (children : List Node) :
    (⟨kind, line, children⟩ : Node).transport move lines =
      ⟨kind.transport move lines, line + lines, children.map (Node.transport move lines)⟩ := by
  rw [Node.transport, Node.transportAll_eq]

theorem Node.transport_leaf (kind : NodeKind) (line : Nat) :
    (Node.leaf kind line).transport move lines = .leaf (kind.transport move lines) (line + lines) :=
  Node.transport_eq move lines kind line []

theorem NodeKind.transport_branch (condition : Option Expression) (otherwise : Option Node) :
    (NodeKind.branch condition otherwise).transport move lines =
      .branch (condition.map (Expression.transport move lines))
        (otherwise.map (Node.transport move lines)) := by
  cases otherwise <;> rfl

namespace Grammar.Directive

/-- A branch with all that is in it transported. -/
def Alternative.transport (a : Alternative) : Alternative where
  condition := a.condition.map (Expression.transport move lines)
  line := a.line + lines
  children := a.children.map (Node.transport move lines)

theorem chain_transport (as : List Alternative) :
    chain (as.map (Alternative.transport move lines)) =
      (chain as).map (Node.transport move lines) := by
  induction as with
  | nil => rfl
  | cons a as ih =>
    have hcons : ∀ (a : Alternative) (as : List Alternative),
        chain (a :: as) = some ⟨.branch a.condition (chain as), a.line, a.children⟩ :=
        fun _ _ => rfl
    rw [List.map_cons, hcons, hcons, ih, Option.map_some, Node.transport_eq,
      NodeKind.transport_branch]
    rfl

end Grammar.Directive

end

/-! ### On the same line -/

theorem Expression.map_transport_zero :
    Expression.transport move 0 = Expression.relocate move := rfl

mutual

/-- What is moved without coming to another line is only relocated. -/
theorem Node.transport_zero : ∀ n : Node, n.transport move 0 = n.relocate move
  | ⟨kind, line, children⟩ => by
    rw [Node.transport, Node.relocate, NodeKind.transport_zero kind,
      Node.transportAll_zero children, Nat.add_zero]

theorem NodeKind.transport_zero : ∀ kind : NodeKind, kind.transport move 0 = kind.relocate move
  | .branch _ (some otherwise) => by
    rw [NodeKind.transport, NodeKind.relocate, Node.transport_zero otherwise,
      Expression.map_transport_zero]
  | .branch _ none | .property .. | .definition _ | .inclusion .. | .assignment .. | .debug _
  | .warn _ | .loop _ | .root | .atRule .. | .ruleset _ | .comment .. => rfl

theorem Node.transportAll_zero : ∀ ns : List Node,
    Node.transportAll move 0 ns = Node.relocateAll move ns
  | [] => rfl
  | n :: ns => by
    rw [Node.transportAll, Node.relocateAll, Node.transport_zero n, Node.transportAll_zero ns]

end

/-! ### Nothing moved -/

section

mutual

theorem Token.relocate_id : ∀ t : Token, t.relocate id = t
  | ⟨kind, location⟩ => by rw [Token.relocate, TokenKind.relocate_id kind, id]

theorem TokenKind.relocate_id : ∀ kind : TokenKind, kind.relocate id = kind
  | .special pieces => by rw [TokenKind.relocate, Piece.relocateAll_id pieces]
  | .var .. | .string .. | .number .. | .color _ | .bool _ | .uri _ | .unicodeRange _ | .ident _
  | .op _ => rfl

theorem Piece.relocate_id : ∀ p : Piece, p.relocate id = p
  | .raw _ => rfl
  | .interpolation tokens => by rw [Piece.relocate, Token.relocateAll_id tokens]

theorem Token.relocateAll_id : ∀ ts : List Token, Token.relocateAll id ts = ts
  | [] => rfl
  | t :: ts => by rw [Token.relocateAll, Token.relocate_id t, Token.relocateAll_id ts]

theorem Piece.relocateAll_id : ∀ ps : List Piece, Piece.relocateAll id ps = ps
  | [] => rfl
  | p :: ps => by rw [Piece.relocateAll, Piece.relocate_id p, Piece.relocateAll_id ps]

end

theorem Expression.relocate_id (e : Expression) : e.relocate id = e := by
  rw [Expression.relocate, ← Token.relocateAll_eq, Token.relocateAll_id]

theorem Expression.map_relocate_id : Expression.relocate id = id :=
  funext Expression.relocate_id

theorem BlockDefinition.relocate_id (d : BlockDefinition) : d.relocate id = d := by
  have hparameter : Parameter.relocate id = id := by
    funext p
    rw [Parameter.relocate, Expression.map_relocate_id, Option.map_id]
    rfl
  rw [BlockDefinition.relocate, hparameter, List.map_id]

mutual

theorem Node.relocate_id : ∀ n : Node, n.relocate id = n
  | ⟨kind, line, children⟩ => by
    rw [Node.relocate, NodeKind.relocate_id kind, Node.relocateAll_id children]

theorem NodeKind.relocate_id : ∀ kind : NodeKind, kind.relocate id = kind
  | .branch condition (some otherwise) => by
    rw [NodeKind.relocate, Node.relocate_id otherwise, Expression.map_relocate_id,
      Option.map_id, id]
  | .branch condition none => by
    rw [NodeKind.relocate, Expression.map_relocate_id, Option.map_id, id]
  | .property .. => by rw [NodeKind.relocate, Expression.map_relocate_id, Option.map_id, id]
  | .definition d => by rw [NodeKind.relocate, BlockDefinition.relocate_id]
  | .inclusion .. => by rw [NodeKind.relocate, Expression.map_relocate_id, List.map_id]
  | .assignment .. => by rw [NodeKind.relocate, Expression.relocate_id]
  | .debug _ => by rw [NodeKind.relocate, Expression.relocate_id]
  | .warn _ => by rw [NodeKind.relocate, Expression.relocate_id]
  | .loop _ => by rw [NodeKind.relocate, Expression.relocate_id]
  | .root | .atRule .. | .ruleset _ | .comment .. => rfl

theorem Node.relocateAll_id : ∀ ns : List Node, Node.relocateAll id ns = ns
  | [] => rfl
  | n :: ns => by rw [Node.relocateAll, Node.relocate_id n, Node.relocateAll_id ns]

end

end

end Stylesheet
