import Stylesheet.Proofs.Evaluation

/-!
# What remains of nodes that are evaluated

Evaluation carries the frames of the scopes along and changes them on its way, but which nodes it
returns depends on the nodes alone: `Node.residue` drops what has been carried out and goes into the
nodes that evaluation goes into, without a store (`Store.evaluateAll_eq_residues`).

What it returns has nothing left to carry out (`Settled`), so that a second evaluation returns the
same and leaves the frames of its store as they are (`Store.evaluateAll_returns`).
-/
namespace Stylesheet

/-! ### Kinds of nodes -/

/-- Evaluation leaves nothing of the node. -/
def NodeKind.vanishes : NodeKind → Bool
  | .definition _ | .assignment _ _ _ | .comment _ true => true
  | _ => false

/-- Evaluation goes into the children of the node. -/
def NodeKind.descends : NodeKind → Bool
  | .root | .ruleset _ | .atRule _ _ => true
  | _ => false

theorem NodeKind.descends_iff {kind : NodeKind} :
    kind.descends = true ↔ kind = .root ∨ kind.Scoped := by
  cases kind <;> simp [descends, Scoped]

theorem NodeKind.vanishes_of_descends {kind : NodeKind} (h : kind.descends = true) :
    kind.vanishes = false := by
  cases kind <;> first | rfl | cases h

theorem NodeKind.inert_of_stays {kind : NodeKind} (hstays : kind.vanishes = false)
    (hwhole : kind.descends = false) : kind.Inert := by
  cases kind with
  | definition => cases hstays
  | assignment => cases hstays
  | root => cases hwhole
  | ruleset => cases hwhole
  | atRule => cases hwhole
  | _ => trivial

/-! ### The residue -/

mutual

/-- The node without what vanishes in it, as deep as evaluation goes. -/
def Node.residue : Node → Node
  | ⟨kind, line, children⟩ =>
    ⟨kind, line, if kind.descends then Node.residues children else children⟩

/-- The nodes that do not vanish, each without what vanishes in it. -/
def Node.residues : List Node → List Node
  | [] => []
  | node :: nodes =>
    if node.kind.vanishes then Node.residues nodes
    else node.residue :: Node.residues nodes

end

theorem Node.residues_eq (nodes : List Node) :
    Node.residues nodes = (nodes.filter fun node => !node.kind.vanishes).map Node.residue := by
  induction nodes with
  | nil => rw [residues, List.filter_nil, List.map_nil]
  | cons node nodes ih =>
    rw [residues, List.filter_cons, ih]
    cases node.kind.vanishes <;> rfl

theorem Node.residue_eq (node : Node) :
    node.residue = ⟨node.kind, node.line,
      if node.kind.descends then Node.residues node.children else node.children⟩ := by
  cases node
  rw [residue]

theorem Node.residue_whole {node : Node} (h : node.kind.descends = false) :
    node.residue = node := by
  cases node
  rw [residue, if_neg (Bool.eq_false_iff.mp h)]

theorem Node.residue_inside {kind : NodeKind} (h : kind.descends = true) (line : Nat)
    (children : List Node) :
    Node.residue ⟨kind, line, children⟩ = ⟨kind, line, Node.residues children⟩ := by
  rw [residue, if_pos h]

mutual

theorem Node.evaluate_eq_residue : ∀ (node : Node) (env : Env) (s : Store),
    ((node.evaluate env).run s).1 = if node.kind.vanishes then [] else [node.residue]
  | ⟨kind, line, children⟩, env, s => by
    cases kind with
    | root =>
      rw [residue_inside rfl, ← Node.evaluateAll_eq_residues children env s]
      rfl
    | ruleset selector =>
      rw [residue_inside rfl,
        ← Node.evaluateAll_eq_residues children (s.newChild env).1 (s.newChild env).2]
      rfl
    | atRule name value =>
      rw [residue_inside rfl,
        ← Node.evaluateAll_eq_residues children (s.newChild env).1 (s.newChild env).2]
      rfl
    | comment text silent =>
      rw [residue_whole rfl]
      cases silent <;> rfl
    | _ =>
      rw [residue_whole rfl]
      rfl

/-- What evaluation returns of nodes is their residue. -/
theorem Node.evaluateAll_eq_residues : ∀ (nodes : List Node) (env : Env) (s : Store),
    ((Node.evaluateAll nodes env).run s).1 = Node.residues nodes
  | [], _, _ => by rw [residues]; rfl
  | node :: nodes, env, s => by
    have hrun : ((Node.evaluateAll (node :: nodes) env).run s).1 =
        ((node.evaluate env).run s).1 ++
        ((Node.evaluateAll nodes env).run ((node.evaluate env).run s).2).1 := rfl
    rw [hrun, Node.evaluate_eq_residue node, Node.evaluateAll_eq_residues nodes, residues]
    cases node.kind.vanishes <;> rfl

end

/-! ### Settled nodes -/

/-- Nothing that vanishes is left, as deep as evaluation goes. -/
inductive Settled : List Node → Prop
  | nil : Settled []
  | whole {kind line children nodes} (stays : NodeKind.vanishes kind = false)
      (whole : NodeKind.descends kind = false) (others : Settled nodes) :
      Settled (⟨kind, line, children⟩ :: nodes)
  | inside {kind line children nodes} (descends : NodeKind.descends kind = true)
      (inner : Settled children) (others : Settled nodes) :
      Settled (⟨kind, line, children⟩ :: nodes)

theorem settled_residues (nodes : List Node) : Settled (Node.residues nodes) := by
  match nodes with
  | [] =>
    rw [Node.residues]
    exact .nil
  | ⟨kind, line, children⟩ :: nodes =>
    have hothers : Settled (Node.residues nodes) := settled_residues nodes
    rw [Node.residues]
    split
    · exact hothers
    · rename_i hstays
      cases hdescends : kind.descends with
      | true =>
        rw [Node.residue_inside hdescends]
        exact .inside hdescends (settled_residues children) hothers
      | false =>
        rw [Node.residue_whole hdescends]
        exact .whole (Bool.eq_false_iff.mpr hstays) hdescends hothers
termination_by sizeOf nodes

theorem Settled.residues_eq {nodes : List Node} (h : Settled nodes) :
    Node.residues nodes = nodes := by
  induction h with
  | nil => rw [Node.residues]
  | whole stays whole _ ih =>
    rw [Node.residues, if_neg (Bool.eq_false_iff.mp stays), Node.residue_whole whole, ih]
  | inside descends _ _ ihinner ih =>
    have hstays := NodeKind.vanishes_of_descends descends
    rw [Node.residues, if_neg (Bool.eq_false_iff.mp hstays), Node.residue_inside descends,
      ihinner, ih]

namespace Store

variable {s s' : Store} {env : Env} {nodes : List Node}

/-- Evaluation of settled nodes makes new frames, and nothing else: it keeps the frames that it
finds, and binds no block anywhere. -/
theorem frame?_evaluated_of_settled (h : Settled nodes) (s : Store) (env : Env) :
    (∀ f, s.Has f → (s.evaluated nodes env).frame? f = s.frame? f) ∧
    (s.evaluated nodes env).events = s.events := by
  induction h generalizing s env with
  | nil => exact ⟨fun _ _ => rfl, rfl⟩
  | whole stays whole _ ih =>
    rw [evaluated_inert (NodeKind.inert_of_stays stays whole)]
    exact ih s env
  | @inside kind line children nodes descends _ _ ihinner ih =>
    -- the children are evaluated in a store with the old frames, and so are the nodes behind
    obtain ⟨inner, env', hrun, hold, hevents⟩ : ∃ (inner : Store) (env' : Env),
        s.evaluated (⟨kind, line, children⟩ :: nodes) env =
          (inner.evaluated children env').evaluated nodes env ∧
          (∀ f, s.Has f → inner.Has f ∧ inner.frame? f = s.frame? f) ∧ inner.events = s.events := by
      rcases NodeKind.descends_iff.mp descends with rfl | hscoped
      · exact ⟨s, env, evaluated_root, fun f hf => ⟨hf, rfl⟩, rfl⟩
      · exact ⟨_, _, evaluated_scoped hscoped,
          fun f hf => ⟨has_allocate.mpr (.inl hf), frame?_allocate_of_has hf⟩, rfl⟩
    obtain ⟨hinner, hinnerEvents⟩ := ihinner inner env'
    obtain ⟨hothers, hothersEvents⟩ := ih (inner.evaluated children env') env
    rw [hrun]
    refine ⟨fun f hf => ?_, hothersEvents.trans (hinnerEvents.trans hevents)⟩
    obtain ⟨hhas, hframe⟩ := hold f hf
    have hkept : (inner.evaluated children env').Has f :=
      (executes inner children env').extends.has f hhas
    rw [hothers f hkept, hinner f hhas, hframe]

/-- What evaluation returns depends on the nodes alone, not on the frame it is in or on what the
frames hold: the nodes in their order, without block definitions, assignments and silent comments. A
root, a ruleset or a general directive keeps its kind and its line and has of its children what
remains of them; every other node is the same as before. Nothing is left to carry out in what is
returned: evaluating it again, in any frame of any store, returns it as it is, keeps every frame
with all its variables and blocks, and binds no block. -/
theorem evaluateAll_returns (nodes : List Node) (env₁ env₂ : Env) (s₁ s₂ : Store) :
    let remaining (nodes : List Node) (env : Env) (s : Store) : List Node :=
      ((Node.evaluateAll nodes env).run s).1
    let returned := remaining nodes env₁ s₁
    returned = remaining nodes env₂ s₂ ∧
      returned = (nodes.filter fun node => !node.kind.vanishes).map Node.residue ∧
      (∀ node : Node, node.residue.kind = node.kind ∧ node.residue.line = node.line ∧
        (node.kind.descends = true →
          node.residue.children =
          (node.children.filter fun child => !child.kind.vanishes).map Node.residue) ∧
        (node.kind.descends = false → node.residue = node)) ∧
      ∀ env s, remaining returned env s = returned ∧
        (∀ f, s.Has f → (s.evaluated returned env).frame? f = s.frame? f) ∧
        (s.evaluated returned env).events = s.events := by
  intro remaining returned
  have hreturned : returned = Node.residues nodes := Node.evaluateAll_eq_residues nodes env₁ s₁
  have hsettled : Settled returned := hreturned ▸ settled_residues nodes
  refine ⟨?_, ?_, fun node => ⟨?_, ?_, fun hdescends => ?_, Node.residue_whole⟩,
    fun env s => ⟨?_, ?_⟩⟩
  · rw [hreturned]
    exact (Node.evaluateAll_eq_residues nodes env₂ s₂).symm
  · rw [hreturned, Node.residues_eq]
  · rw [Node.residue_eq]
  · rw [Node.residue_eq]
  · rw [Node.residue_eq, if_pos hdescends, Node.residues_eq]
  · exact (Node.evaluateAll_eq_residues returned env s).trans hsettled.residues_eq
  · exact frame?_evaluated_of_settled hsettled s env

end Store
end Stylesheet
