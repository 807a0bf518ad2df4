import Stylesheet.Proofs.Assignment

/-!
# The closures that evaluation binds

`Node.evaluatedBlocks` lists the block definitions that an evaluation comes upon, each with the
frame it is evaluated in, and `Store.history` those of a whole run, so that which block a lookup
should find is read off the history and not off the store.  While only evaluation binds blocks, a
frame holds for each name the closure of the last such definition (`Store.localBlock?_perform`); a
lookup finds the one of the nearest frame in which any was evaluated, and the closure has this very
frame for its environment (`Store.block?_eq_latest`).
-/
namespace Stylesheet

/-! ### The definitions that are evaluated -/

/-- A block definition that was evaluated, with its body and the frame that it stood in. -/
structure EvaluatedBlock where
  env : Env
  block : BlockDefinition
  body : List Node
  deriving DecidableEq

/-- The closure that evaluation binds. -/
def EvaluatedBlock.closure (d : EvaluatedBlock) : Closure :=
  ⟨d.block.name, d.block.parameters, d.body, d.env⟩

mutual

/-- The block definitions that the evaluation of a node comes upon, in this order. -/
def Node.evaluatedBlocks : Node → Env → Store → List EvaluatedBlock
  | ⟨kind, _, children⟩, env, s =>
    match kind with
    | .definition block => [⟨env, block, children⟩]
    | .root => Node.evaluatedBlocksAll children env s
    | .ruleset _ | .atRule _ _ =>
      Node.evaluatedBlocksAll children (s.newChild env).1 (s.newChild env).2
    | _ => []

/-- The block definitions that the evaluation of nodes one after the other comes upon. -/
def Node.evaluatedBlocksAll : List Node → Env → Store → List EvaluatedBlock
  | [], _, _ => []
  | node :: nodes, env, s =>
    node.evaluatedBlocks env s ++ Node.evaluatedBlocksAll nodes env (s.evaluated [node] env)

end

theorem Node.evaluatedBlocks_scoped {kind : NodeKind} (h : kind.Scoped) (line : Nat)
    (children : List Node) (env : Env) (s : Store) :
    Node.evaluatedBlocks ⟨kind, line, children⟩ env s =
      Node.evaluatedBlocksAll children (s.newChild env).1 (s.newChild env).2 := by
  cases kind with
  | ruleset => rfl
  | atRule => rfl
  | _ => exact h.elim

theorem Node.evaluatedBlocks_inert {kind : NodeKind} (h : kind.Inert) (line : Nat)
    (children : List Node) (env : Env) (s : Store) :
    Node.evaluatedBlocks ⟨kind, line, children⟩ env s = [] := by
  cases kind with
  | definition => exact h.elim
  | assignment => rfl
  | root => exact h.elim
  | ruleset => exact h.elim
  | atRule => exact h.elim
  | _ => rfl

/-- Among definitions in the order of their evaluation, the last one of a name in a frame. -/
def latest? (ds : List EvaluatedBlock) (m : Text) (f : Env) : Option EvaluatedBlock :=
  (ds.filter fun d => d.env = f && d.block.name = m).getLast?

theorem latest?_append (ds ds' : List EvaluatedBlock) (m : Text) (f : Env) :
    latest? (ds ++ ds') m f = (latest? ds' m f).or (latest? ds m f) := by
  rw [latest?, List.filter_append, List.getLast?_append]
  rfl

/-- A definition of a name was evaluated in a frame. -/
def DefinedIn (ds : List EvaluatedBlock) (m : Text) (f : Env) : Prop :=
  ∃ d ∈ ds, d.env = f ∧ d.block.name = m

instance (ds : List EvaluatedBlock) (m : Text) (f : Env) : Decidable (DefinedIn ds m f) :=
  inferInstanceAs (Decidable (∃ d ∈ ds, _))

theorem definedIn_iff {ds : List EvaluatedBlock} {m : Text} {f : Env} :
    DefinedIn ds m f ↔ (latest? ds m f).isSome = true := by
  simp [DefinedIn, latest?]

theorem latest?_spec {ds : List EvaluatedBlock} {m : Text} {f : Env} {d : EvaluatedBlock}
    (h : latest? ds m f = some d) : d ∈ ds ∧ d.env = f ∧ d.block.name = m := by
  have hmem := List.mem_of_getLast? h
  simpa using hmem

/-- What frames have for names once definitions were evaluated: the closure of the last one of the
name in the frame, or what they had before. -/
def rebound (ds : List EvaluatedBlock) (old : Text → Env → Option Closure) (m : Text) (f : Env) :
    Option Closure :=
  ((latest? ds m f).map EvaluatedBlock.closure).or (old m f)

theorem rebound_append (ds ds' : List EvaluatedBlock) (old : Text → Env → Option Closure) :
    rebound (ds ++ ds') old = rebound ds' (rebound ds old) := by
  funext m f
  rw [rebound, latest?_append, rebound, rebound]
  cases latest? ds' m f <;> rfl

namespace Store

variable {s s' : Store} {env e f : Env} {nodes : List Node} {m : Text}

/-! ### One evaluation -/

theorem Executes.eq_evaluated (h : Executes env nodes s s') : s' = s.evaluated nodes env := by
  induction h with
  | nil => rfl
  | define _ ih => exact ih
  | assign _ ih => exact ih
  | root _ _ ihinner ih => rw [ih, ihinner, evaluated_root]
  | scope hkind _ _ ihinner ih => rw [ih, ihinner, evaluated_scoped hkind]
  | skip hkind _ ih => rw [ih, evaluated_inert hkind]

theorem localBlock?_allocate (s : Store) (parent : Option Env) :
    (s.allocate parent).2.localBlock? = s.localBlock? := by
  funext m f
  by_cases hf : (s.allocate parent).2.Has f
  · rcases has_allocate.mp hf with hold | rfl
    · rw [localBlock?, frame?_allocate_of_has hold, ← localBlock?]
    · rw [localBlock?, frame?_allocate_new, localBlock?, frame?_eq_none_iff.mpr not_has_allocate]
      rfl
  · have hold : ¬ s.Has f := fun h => hf (has_allocate.mpr (.inl h))
    rw [localBlock?, frame?_eq_none_iff.mpr hf, localBlock?, frame?_eq_none_iff.mpr hold]

theorem localBlock?_define_eq_rebound (he : s.Has env) (block : BlockDefinition)
    (body : List Node) :
    (s.define env block body).localBlock? = rebound [⟨env, block, body⟩] s.localBlock? := by
  funext m f
  have hcond : (decide (env = f) && decide (block.name = m)) = true ↔ f = env ∧ m = block.name := by
    rw [Bool.and_eq_true, decide_eq_true_iff, decide_eq_true_iff]
    exact and_congr eq_comm eq_comm
  rw [localBlock?_define he, rebound, latest?, List.filter_cons]
  by_cases h : f = env ∧ m = block.name
  · rw [if_pos h, if_pos (hcond.mpr h)]
    rfl
  · rw [if_neg h, if_neg (mt hcond.mp h)]
    rfl

/-- What the frames have for each name after an evaluation. -/
theorem Executes.localBlock?_eq (h : Executes env nodes s s') (he : s.Has env) :
    s'.localBlock? = rebound (Node.evaluatedBlocksAll nodes env s) s.localBlock? := by
  -- the definitions of the steps add up by `rebound_append`; a new frame has no blocks yet
  induction h with
  | nil => rfl
  | define _ ih =>
    rw [ih (has_define.mpr he), localBlock?_define_eq_rebound he, ← rebound_append]
    rfl
  | assign _ ih =>
    rw [ih (has_assign.mpr he)]
    exact congrArg (rebound _) (funext fun _ => funext fun _ => localBlock?_assign)
  | @root env s s₁ s' line children nodes inner _ ihinner ih =>
    have hnode : s.evaluated [⟨.root, line, children⟩] env = s₁ := by
      rw [evaluated_root, evaluated_nil, inner.eq_evaluated]
    rw [ih (inner.extends.has _ he), ihinner he, ← rebound_append, Node.evaluatedBlocksAll, hnode]
    rfl
  | @scope env s s₁ s' kind line children nodes hkind inner _ ihinner ih =>
    have hnode : s.evaluated [⟨kind, line, children⟩] env = s₁ := by
      rw [evaluated_scoped hkind, evaluated_nil, inner.eq_evaluated]
    rw [ih (inner.extends_of_newChild.has _ he), ihinner has_newChild_new, newChild,
      localBlock?_allocate, ← rebound_append, Node.evaluatedBlocksAll, hnode,
      Node.evaluatedBlocks_scoped hkind]
    rfl
  | @skip env s s' kind line children nodes hkind _ ih =>
    rw [ih he, Node.evaluatedBlocksAll, evaluated_inert hkind, evaluated_nil,
      Node.evaluatedBlocks_inert hkind, List.nil_append]

/-! ### A whole run -/

namespace Operation

/-- The block definitions that an operation evaluates. -/
def evaluatedBlocks : Operation → Store → List EvaluatedBlock
  | evaluate nodes env, s => Node.evaluatedBlocksAll nodes env s
  | _, _ => []

/-- The operation binds a block other than by evaluation. -/
def Binds : Operation → Prop
  | bind _ _ _ => True
  | _ => False

theorem localBlock?_run {op : Operation} (h : op.Allowed s) (hbinds : ¬ op.Binds) :
    (op.run s).localBlock? = rebound (op.evaluatedBlocks s) s.localBlock? := by
  cases op with
  | newGlobal => exact localBlock?_allocate s none
  | newChild env => exact localBlock?_allocate s (some env)
  | set => exact funext fun _ => funext fun _ => localBlock?_setLocal
  | setLocal => exact funext fun _ => funext fun _ => localBlock?_setLocal
  | bind => exact absurd trivial hbinds
  | evaluate nodes env => exact (executes s nodes env).localBlock?_eq h

end Operation

/-- The block definitions that a run evaluates, in this order. -/
def history (s : Store) : List Operation → List EvaluatedBlock
  | [] => []
  | op :: ops => op.evaluatedBlocks s ++ (op.run s).history ops

theorem localBlock?_perform {ops : List Operation} (h : s.Accepts ops)
    (hbinds : ∀ op ∈ ops, ¬ op.Binds) :
    (s.perform ops).localBlock? = rebound (s.history ops) s.localBlock? := by
  induction ops generalizing s with
  | nil => rfl
  | cons op ops ih =>
    obtain ⟨hop, hops⟩ := List.forall_mem_cons.mp hbinds
    rw [perform, ih h.2 hops, op.localBlock?_run h.1 hop, ← rebound_append, history]

section
variable {ops : List Operation} (hops : Accepts {} ops) (hbinds : ∀ op ∈ ops, ¬ op.Binds)
include hops hbinds

theorem shows_localBlock?_iff :
    Shows ((perform {} ops).localBlock? m) f ↔ DefinedIn (history {} ops) m f := by
  rw [Shows, localBlock?_perform hops hbinds, definedIn_iff, rebound]
  cases latest? (history {} ops) m f <;> rfl

/-- What a frame has for a name is the closure of the last definition evaluated in it. -/
theorem localBlock?_eq_some_iff {c : Closure} : (perform {} ops).localBlock? m f = some c ↔
    ∃ d, latest? (history {} ops) m f = some d ∧
    c = ⟨d.block.name, d.block.parameters, d.body, f⟩ := by
  have hempty : ({} : Store).localBlock? m f = none := rfl
  rw [localBlock?_perform hops hbinds, rebound, hempty, Option.or_none, Option.map_eq_some_iff]
  refine exists_congr fun d => and_congr_right fun hd => ?_
  rw [EvaluatedBlock.closure, (latest?_spec hd).2.1, eq_comm]

theorem block?_eq_some_iff {c : Closure} : (perform {} ops).block? e m = some c ↔
    ∃ f d, (perform {} ops).Meets (DefinedIn (history {} ops) m) e f ∧
    latest? (history {} ops) m f = some d ∧
      c = ⟨d.block.name, d.block.parameters, d.body, f⟩ := by
  have hs : (perform {} ops).Ordered := ordered_empty.perform hops
  rw [block?, findSome?_chain_eq_some hs fun f a => has_of_localBlock?]
  refine exists_congr fun f => ?_
  rw [localBlock?_eq_some_iff hops hbinds, exists_and_left,
    meets_congr (fun _ => rfl) fun f => (shows_localBlock?_iff hops hbinds).symm]

end

/-- While only evaluation binds blocks, the block that a lookup finds is the closure of the last
definition of its name among those evaluated in the nearest frame in which any was. It has the name,
the parameters and the body of this definition, and its environment is this frame: what is set there
later, or further out without being shadowed, is seen through it. -/
theorem block?_eq_latest {ops : List Operation} (hops : Accepts {} ops)
    (hbinds : ∀ op ∈ ops, ¬ op.Binds) (he : (perform {} ops).Has e) (m : Text) :
    let s : Store := perform {} ops
    let ds := history {} ops
    (∀ c, s.block? e m = some c ↔ ∃ f d, s.Meets (DefinedIn ds m) e f ∧ latest? ds m f = some d ∧
        c = ⟨d.block.name, d.block.parameters, d.body, f⟩) ∧
      (s.block? e m = none ↔ ∀ f, s.Encloses f e → ¬ DefinedIn ds m f) ∧
      ∀ c, s.block? e m = some c → ∀ later, s.Accepts later → ∀ f x v,
        (s.perform later).Meets (Shows ((s.perform later).localValue? x)) c.env f →
          ((s.perform later).setLocal f x v).value? c.env x = some v ∧
            ((s.perform later).set f x v).value? c.env x = some v := by
  intro s ds
  have hs : s.Ordered := ordered_empty.perform hops
  refine ⟨fun c => block?_eq_some_iff hops hbinds, ?_, fun c hc later hlater f x v hmeets => ?_⟩
  · rw [block?, findSome?_chain_eq_none hs he]
    exact forall₂_congr fun f _ => not_congr (shows_localBlock?_iff hops hbinds)
  · obtain ⟨f₀, d, hwalk, -, rfl⟩ := (block?_eq_some_iff hops hbinds).mp hc
    -- the frame of the closure is still there, and so is every frame around it
    have hlast : (s.perform later).Ordered := hs.perform hlater
    have hhas : (s.perform later).Has f₀ :=
      (s.extends_perform later).has _ (hwalk.encloses.has hs he)
    exact ⟨(assigned_setLocal hlast (hmeets.encloses.has hlast hhas)).values.seen _ hmeets,
      value?_set_of_meets hlast hhas hmeets⟩

/-- A block that is defined twice, seen from a frame inside that of its definitions. -/
theorem block?_eq_latest_redefined :
    let first : Node := ⟨.definition ⟨"m".toList, []⟩, 1, []⟩
    let second : Node := ⟨.definition ⟨"m".toList, [⟨"a".toList, none⟩]⟩, 2, []⟩
    let ops : List Operation := [.newGlobal, .newChild ⟨0⟩, .evaluate [first, second] ⟨0⟩]
    Accepts {} ops ∧ (∀ op ∈ ops, ¬ op.Binds) ∧ (perform {} ops).Has ⟨1⟩ ∧
      (perform {} ops).block? ⟨1⟩ "m".toList =
      some ⟨"m".toList, [⟨"a".toList, none⟩], [], ⟨0⟩⟩ := by
  intro first second ops
  have hops : Accepts {} ops := by decide
  have hbinds : ∀ op ∈ ops, ¬ op.Binds := by simp [ops, Operation.Binds]
  have hhas : (perform {} ops).Has ⟨1⟩ := by decide
  refine ⟨hops, hbinds, hhas, ((block?_eq_latest hops hbinds hhas "m".toList).1 _).mpr ?_⟩
  exact ⟨⟨0⟩, ⟨⟨0⟩, ⟨"m".toList, [⟨"a".toList, none⟩]⟩, []⟩, .out (by decide) rfl (.here _), by
    decide, rfl⟩

end Store
end Stylesheet
