import Stylesheet.Scope.Evaluate
import Stylesheet.Proofs.Walk

/-!
# Evaluation as an execution

What evaluation does to the store, node by node: `Store.evaluated` is the store that it leaves, with
one equation for each kind of node, and `Store.Executes` is its execution relation.
`Store.executes` says that every evaluation is such an execution, so that what is kept by each of
its steps is proved by one induction on the relation and no proof opens the evaluator again.

Evaluation only adds frames, each inside an earlier one (`Store.Executes.extends`,
`Store.Executes.ordered`).
-/
namespace Stylesheet

/-! ### Kinds of nodes -/

/-- The children of the node are evaluated in a frame of their own. -/
def NodeKind.Scoped : NodeKind → Prop
  | .ruleset _ | .atRule _ _ => True
  | _ => False

/-- Evaluation does nothing to the scopes at this node. -/
def NodeKind.Inert : NodeKind → Prop
  | .definition _ | .assignment _ _ _ | .root | .ruleset _ | .atRule _ _ => False
  | _ => True

theorem NodeKind.cases_effect (kind : NodeKind) :
    (∃ block, kind = .definition block) ∨
    (∃ name value guarded, kind = .assignment name value guarded) ∨
      kind = .root ∨ kind.Scoped ∨ kind.Inert := by
  cases kind <;> simp [Scoped, Inert]

namespace Store

/-! ### What each node does -/

/-- The store after the evaluation of nodes in a frame. -/
def evaluated (s : Store) (nodes : List Node) (env : Env) : Store :=
  ((Node.evaluateAll nodes env).run s).2

/-- Binds a block definition together with the frame it stands in, and logs it. -/
def define (s : Store) (env : Env) (block : BlockDefinition) (body : List Node) : Store :=
  { s.bind env block.name ⟨block.name, block.parameters, body, env⟩ with
    events := s.events ++ [.bound block.name block.parameters.length] }

/-- Carries out an assignment, unless it is guarded and the variable has a value. -/
def assign (s : Store) (env : Env) (name : Text) (value : Expression) (guarded : Bool) : Store :=
  if guarded && s.hasVariable env name then s else s.set env name value

section
variable {s : Store} {env : Env} {nodes children : List Node} {line : Nat} {kind : NodeKind}

theorem evaluated_nil : s.evaluated [] env = s := rfl

theorem evaluated_definition {block : BlockDefinition} :
    s.evaluated (⟨.definition block, line, children⟩ :: nodes) env =
      (s.define env block children).evaluated nodes env := rfl

theorem evaluated_assignment {name : Text} {value : Expression} {guarded : Bool} :
    s.evaluated (⟨.assignment name value guarded, line, children⟩ :: nodes) env =
      (s.assign env name value guarded).evaluated nodes env := rfl

theorem evaluated_root :
    s.evaluated (⟨.root, line, children⟩ :: nodes) env =
      (s.evaluated children env).evaluated nodes env := rfl

theorem evaluated_scoped (h : kind.Scoped) :
    s.evaluated (⟨kind, line, children⟩ :: nodes) env =
      ((s.newChild env).2.evaluated children (s.newChild env).1).evaluated nodes env := by
  cases kind with
  | ruleset => rfl
  | atRule => rfl
  | _ => exact h.elim

theorem evaluated_inert (h : kind.Inert) :
    s.evaluated (⟨kind, line, children⟩ :: nodes) env = s.evaluated nodes env := by
  cases kind with
  | comment _ silent => cases silent <;> rfl
  | definition => exact h.elim
  | assignment => exact h.elim
  | root => exact h.elim
  | ruleset => exact h.elim
  | atRule => exact h.elim
  | _ => rfl

end

/-! ### The execution relation -/

/-- Evaluating nodes in a frame takes one store to another. -/
inductive Executes : Env → List Node → Store → Store → Prop
  | nil {env s} : Executes env [] s s
  | define {env s s' block line body nodes}
      (others : Executes env nodes (s.define env block body) s') :
      Executes env (⟨.definition block, line, body⟩ :: nodes) s s'
  | assign {env s s' name value guarded line children nodes}
      (others : Executes env nodes (s.assign env name value guarded) s') :
      Executes env (⟨.assignment name value guarded, line, children⟩ :: nodes) s s'
  | root {env s s₁ s' line children nodes} (inner : Executes env children s s₁)
      (others : Executes env nodes s₁ s') :
      Executes env (⟨.root, line, children⟩ :: nodes) s s'
  | scope {env s s₁ s' kind line children nodes} (hkind : NodeKind.Scoped kind)
      (inner : Executes (s.newChild env).1 children (s.newChild env).2 s₁)
      (others : Executes env nodes s₁ s') :
      Executes env (⟨kind, line, children⟩ :: nodes) s s'
  | skip {env s s' kind line children nodes} (hkind : NodeKind.Inert kind)
      (others : Executes env nodes s s') :
      Executes env (⟨kind, line, children⟩ :: nodes) s s'

/-- Every evaluation is an execution. -/
theorem executes (s : Store) (nodes : List Node) (env : Env) :
    Executes env nodes s (s.evaluated nodes env) := by
  match nodes with
  | [] => exact .nil
  | ⟨kind, line, children⟩ :: nodes =>
    rcases kind.cases_effect with
      ⟨block, rfl⟩ | ⟨name, value, guarded, rfl⟩ | rfl | hscoped | hinert
    · rw [evaluated_definition]
      exact .define (executes _ nodes env)
    · rw [evaluated_assignment]
      exact .assign (executes _ nodes env)
    · rw [evaluated_root]
      exact .root (executes s children env) (executes _ nodes env)
    · rw [evaluated_scoped hscoped]
      exact .scope hscoped (executes _ children _) (executes _ nodes env)
    · rw [evaluated_inert hinert]
      exact .skip hinert (executes s nodes env)
termination_by sizeOf nodes

/-! ### What each step does to the frames -/

section
variable {s s' : Store} {env e f : Env} {block : BlockDefinition} {body nodes : List Node}
  {name m y : Text} {value : Expression} {guarded : Bool}

theorem frame?_define : (s.define env block body).frame? f =
    (s.bind env block.name ⟨block.name, block.parameters, body, env⟩).frame? f := rfl

@[simp] theorem has_define : (s.define env block body).Has e ↔ s.Has e :=
  has_bind

@[simp] theorem parent?_define : (s.define env block body).parent? e = s.parent? e :=
  parent?_bind

@[simp] theorem localValue?_define :
    (s.define env block body).localValue? y e = s.localValue? y e :=
  localValue?_bind

theorem localBlock?_define (he : s.Has env) : (s.define env block body).localBlock? m f =
    if f = env ∧ m = block.name then some ⟨block.name, block.parameters, body, env⟩
    else s.localBlock? m f :=
  localBlock?_bind he

theorem extends_define : s.Extends (s.define env block body) :=
  ⟨fun _ => has_define.mpr, fun _ _ => parent?_define⟩

/-- The frame that an assignment writes to. -/
def target (s : Store) (env : Env) (name : Text) : Env :=
  (s.definer? env name).getD env

theorem target_cases (s : Store) (env : Env) (name : Text) :
    (s.target env name ∈ s.chain env ∧ Shows (s.localValue? name) (s.target env name)) ∨
      s.target env name = env ∧ ∀ t ∈ s.chain env, ¬ Shows (s.localValue? name) t := by
  rw [target]
  cases h : s.definer? env name with
  | none => exact .inr ⟨rfl, List.find?_eq_none.mp h⟩
  | some t =>
    have hshows : (s.localValue? name t).isSome = true :=
      List.find?_some (p := fun f => (s.localValue? name f).isSome) h
    exact .inl ⟨List.mem_of_find?_eq_some h, hshows⟩

theorem target_mem_chain (he : s.Has env) : s.target env name ∈ s.chain env := by
  rcases s.target_cases env name with ⟨hmem, -⟩ | ⟨htarget, -⟩
  · exact hmem
  · exact htarget.symm ▸ mem_chain_self he

/-- An assignment changes nothing, or one frame. -/
theorem assign_cases (s : Store) (env : Env) (name : Text) (value : Expression) (guarded : Bool) :
    s.assign env name value guarded = s ∨
      s.assign env name value guarded = s.setLocal (s.target env name) name value := by
  rw [assign]
  split
  · exact .inl rfl
  · exact .inr rfl

@[simp] theorem has_assign : (s.assign env name value guarded).Has e ↔ s.Has e := by
  rcases s.assign_cases env name value guarded with h | h <;> simp [h]

@[simp] theorem parent?_assign : (s.assign env name value guarded).parent? e = s.parent? e := by
  rcases s.assign_cases env name value guarded with h | h <;> simp [h]

@[simp] theorem localBlock?_assign :
    (s.assign env name value guarded).localBlock? m e = s.localBlock? m e := by
  rcases s.assign_cases env name value guarded with h | h <;> simp [h]

theorem extends_assign : s.Extends (s.assign env name value guarded) :=
  ⟨fun _ => has_assign.mpr, fun _ _ => parent?_assign⟩

theorem has_newChild_new : (s.newChild env).2.Has (s.newChild env).1 :=
  has_allocate.mpr (.inr rfl)

/-! ### What a whole evaluation does to the frames -/

theorem Executes.extends (h : Executes env nodes s s') : s.Extends s' := by
  induction h with
  | nil => exact .refl _
  | define _ ih => exact extends_define.trans ih
  | assign _ ih => exact extends_assign.trans ih
  | root _ _ ihinner ih => exact ihinner.trans ih
  | scope _ _ _ ihinner ih => exact ((extends_allocate _ _).trans ihinner).trans ih
  | skip _ _ ih => exact ih

/-- What is evaluated in a new frame keeps the frames that were there before it. -/
theorem Executes.extends_of_newChild (h : Executes (s.newChild env).1 nodes (s.newChild env).2 s') :
    s.Extends s' :=
  (extends_allocate s (some env)).trans h.extends

theorem Executes.ordered (h : Executes env nodes s s') (he : s.Has env) (hs : s.Ordered) :
    s'.Ordered := by
  induction h with
  | nil => exact hs
  | define _ ih => exact ih (has_define.mpr he) (hs.of_parent fun _ => parent?_define)
  | assign _ ih => exact ih (has_assign.mpr he) (hs.of_parent fun _ => parent?_assign)
  | root inner _ ihinner ih => exact ih (inner.extends.has _ he) (ihinner he hs)
  | scope _ inner _ ihinner ih =>
    exact ih (inner.extends_of_newChild.has _ he)
      (ihinner has_newChild_new (hs.allocate fun _ ho => Option.some.inj ho ▸ he))
  | skip _ _ ih => exact ih he hs

end

end Store
end Stylesheet
