import Stylesheet.Proofs.Evaluation

/-!
# Stores that can be reached

A store changes by a few operations only: a new global frame or a new one inside another, the two
assignments, the binding of a block, and evaluation.  `Store.perform` carries out a list of them,
`Store.Accepts` says that each finds the frames it is applied to, and `Store.Reachable` stores are
those that come about in this way from the empty one.

A step keeps every frame where it is (`Store.Operation.extends_run`) and adds frames inside earlier
ones only (`Store.Operation.ordered`); so does a whole run.
-/
namespace Stylesheet
namespace Store

/-- An operation on the frames of a store. -/
inductive Operation
  | newGlobal
  | newChild (env : Env)
  | set (env : Env) (name : Text) (value : Expression)
  | setLocal (env : Env) (name : Text) (value : Expression)
  | bind (env : Env) (name : Text) (closure : Closure)
  | evaluate (nodes : List Node) (env : Env)

namespace Operation

/-- The store after an operation. -/
def run : Operation → Store → Store
  | newGlobal, s => s.newGlobal.2
  | newChild env, s => (s.newChild env).2
  | set env name value, s => s.set env name value
  | setLocal env name value, s => s.setLocal env name value
  | bind env name closure, s => s.bind env name closure
  | evaluate nodes env, s => s.evaluated nodes env

/-- The store has the frames that an operation is given. -/
def Allowed : Operation → Store → Prop
  | newGlobal, _ => True
  | newChild env, s => s.Has env
  | set env _ _, s => s.Has env
  | setLocal env _ _, s => s.Has env
  | bind env _ closure, s => s.Has env ∧ s.Has closure.env
  | evaluate _ env, s => s.Has env

instance decidableAllowed : ∀ (op : Operation) (s : Store), Decidable (op.Allowed s)
  | newGlobal, _ => isTrue trivial
  | newChild env, s => inferInstanceAs (Decidable (s.Has env))
  | set env _ _, s => inferInstanceAs (Decidable (s.Has env))
  | setLocal env _ _, s => inferInstanceAs (Decidable (s.Has env))
  | bind env _ closure, s => inferInstanceAs (Decidable (s.Has env ∧ s.Has closure.env))
  | evaluate _ env, s => inferInstanceAs (Decidable (s.Has env))

theorem extends_run (op : Operation) (s : Store) : s.Extends (op.run s) := by
  cases op with
  | newGlobal => exact extends_allocate s none
  | newChild env => exact extends_allocate s (some env)
  | set => exact ⟨fun _ => has_setLocal.mpr, fun _ _ => parent?_setLocal⟩
  | setLocal => exact ⟨fun _ => has_setLocal.mpr, fun _ _ => parent?_setLocal⟩
  | bind => exact ⟨fun _ => has_bind.mpr, fun _ _ => parent?_bind⟩
  | evaluate nodes env => exact (executes s nodes env).extends

theorem ordered {op : Operation} {s : Store} (h : op.Allowed s) (hs : s.Ordered) :
    (op.run s).Ordered := by
  cases op with
  | newGlobal => exact hs.allocate fun _ ho => nomatch ho
  | newChild => exact hs.allocate fun _ ho => Option.some.inj ho ▸ h
  | set => exact hs.of_parent fun _ => parent?_setLocal
  | setLocal => exact hs.of_parent fun _ => parent?_setLocal
  | bind => exact hs.of_parent fun _ => parent?_bind
  | evaluate nodes env => exact (executes s nodes env).ordered h hs

end Operation

/-- The store after one operation after the other. -/
def perform (s : Store) : List Operation → Store
  | [] => s
  | op :: ops => (op.run s).perform ops

/-- Each operation finds the frames it is given. -/
def Accepts (s : Store) : List Operation → Prop
  | [] => True
  | op :: ops => op.Allowed s ∧ (op.run s).Accepts ops

instance decidableAccepts : ∀ (s : Store) (ops : List Operation), Decidable (s.Accepts ops)
  | _, [] => isTrue trivial
  | s, op :: ops =>
    have := decidableAccepts (op.run s) ops
    inferInstanceAs (Decidable (op.Allowed s ∧ (op.run s).Accepts ops))

/-- A store that comes about from the empty one. -/
def Reachable (s : Store) : Prop :=
  ∃ ops, Accepts {} ops ∧ s = perform {} ops

theorem extends_perform (s : Store) (ops : List Operation) : s.Extends (s.perform ops) := by
  induction ops generalizing s with
  | nil => exact .refl s
  | cons op ops ih => exact (op.extends_run s).trans (ih (op.run s))

theorem Ordered.perform {s : Store} {ops : List Operation} (hs : s.Ordered) (h : s.Accepts ops) :
    (s.perform ops).Ordered := by
  induction ops generalizing s with
  | nil => exact hs
  | cons op ops ih => exact ih (op.ordered h.1 hs) h.2

theorem Reachable.ordered {s : Store} (h : s.Reachable) : s.Ordered := by
  obtain ⟨ops, hops, rfl⟩ := h
  exact ordered_empty.perform hops

end Store
end Stylesheet
