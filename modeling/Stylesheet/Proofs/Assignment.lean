import Stylesheet.Proofs.Operations

/-!
# The law of assignment

An assignment writes to one frame, and a frame is seen from many.  For every frame at once
`Store.Assigned` says which lookups find the new value, those whose walk meets the frame that was
written before any other that has the variable, and that no other lookup changes; `Store.Bound` says
the same of the binding of a block.  `Store.assignment_law` is the law for the three ways to write
to a store that can be reached.
-/
namespace Stylesheet
namespace Store

variable {s : Store} {e t : Env} {x z : Text} {v : Expression} {c : Closure}

/-- The frame that an assignment to a variable is for: the nearest one that has it, or the one that
the assignment stands in if none around has. -/
def IsTarget (s : Store) (e : Env) (x : Text) (t : Env) : Prop :=
  (s.Meets (Shows (s.localValue? x)) e t ∧ Shows (s.localValue? x) t) ∨
    t = e ∧ ∀ f, s.Encloses f e → ¬ Shows (s.localValue? x) f

/-- Lookups before and after something was written for a name in one frame: those find it whose walk
meets this frame before any other that has the name, and no other lookup changes. -/
structure Written {α : Type} (s : Store) (g : Text → Env → Option α)
    (old new : Env → Text → Option α) (t : Env) (name : Text) (a : α) : Prop where
  seen : ∀ h, s.Meets (Shows (g name)) h t → new h name = some a
  unseen : ∀ h, ¬ s.Meets (Shows (g name)) h t → new h name = old h name
  others : ∀ h y, y ≠ name → new h y = old h y

/-- A store after a value was written to a variable of one frame. -/
structure Assigned (s s' : Store) (t : Env) (x : Text) (v : Expression) : Prop where
  values : s.Written s.localValue? s.value? s'.value? t x v
  blocks : ∀ h z, s'.block? h z = s.block? h z
  parent : ∀ h, s'.parent? h = s.parent? h
  depth : ∀ h, s'.depth h = s.depth h
  defined : ∀ h y, s'.hasVariable h y = (s'.value? h y).isSome

/-- A store after a block was bound to a name in one frame. -/
structure Bound (s s' : Store) (t : Env) (z : Text) (c : Closure) : Prop where
  blocks : s.Written s.localBlock? s.block? s'.block? t z c
  values : ∀ h x, s'.value? h x = s.value? h x
  parent : ∀ h, s'.parent? h = s.parent? h
  depth : ∀ h, s'.depth h = s.depth h
  defined : ∀ h y, s'.hasVariable h y = (s'.value? h y).isSome
  elsewhere : ∀ f, f ≠ t → s'.frame? f = s.frame? f
  events : s'.events = s.events

/-- What is written for one name in one frame of a store shows in the lookups as `Written` says. -/
theorem written_of_write {α : Type} {s' : Store} {g g' : Text → Env → Option α} {a : α}
    {name : Text} (hs : s.Ordered) (ht : s.Has t) (hchain : ∀ h, s'.chain h = s.chain h)
    (hwrite : ∀ y f, g' y f = if f = t ∧ y = name then some a else g y f) :
    s.Written g (fun h y => (s.chain h).findSome? (g y)) (fun h y => (s'.chain h).findSome? (g' y))
      t name a := by
  have hname : ∀ f, g' name f = if f = t then some a else g name f := fun f => by simp [hwrite]
  refine ⟨fun h hwalk => ?_, fun h hwalk => ?_, fun h y hy => ?_⟩
  · rw [hchain]
    exact findSome?_chain_of_meets hs hname ht hwalk
  · rw [hchain]
    exact findSome?_chain_of_not_meets hname hwalk
  · have hsame : g' y = g y := funext fun f => by rw [hwrite, if_neg fun heq => hy heq.2]
    rw [hchain, hsame]

/-- The frame that an assignment writes to is the one it is for. -/
theorem isTarget_iff (hs : s.Ordered) (he : s.Has e) : s.IsTarget e x t ↔ s.target e x = t := by
  have hsome : ∀ t, s.definer? e x = some t ↔
      s.Meets (Shows (s.localValue? x)) e t ∧ Shows (s.localValue? x) t :=
      fun t => definer?_eq_some hs
  have hnone : s.definer? e x = none ↔ ∀ f, s.Encloses f e → ¬ Shows (s.localValue? x) f := by
    rw [← Option.not_isSome_iff_eq_none, ← hasVariable, hasVariable_eq_isSome,
      Option.not_isSome_iff_eq_none]
    exact findSome?_chain_eq_none hs he
  rw [IsTarget, ← hsome, ← hnone, target]
  cases s.definer? e x with
  | none => simp [eq_comm]
  | some f => simp

theorem assigned_setLocal (hs : s.Ordered) (ht : s.Has t) :
    s.Assigned (s.setLocal t x v) t x v where
  values := written_of_write hs ht (fun _ => chain_setLocal) fun _ _ => localValue?_setLocal ht
  blocks h z := by
    have hsame : (s.setLocal t x v).localBlock? z = s.localBlock? z :=
      funext fun _ => localBlock?_setLocal
    rw [block?, chain_setLocal, hsame, block?]
  parent _ := parent?_setLocal
  depth h := by rw [depth, chain_setLocal, depth]
  defined h y := hasVariable_eq_isSome _ h y

theorem bound_bind (hs : s.Ordered) (ht : s.Has t) : s.Bound (s.bind t z c) t z c where
  blocks := written_of_write hs ht (fun _ => chain_bind) fun _ _ => localBlock?_bind ht
  values h x := by
    have hsame : (s.bind t z c).localValue? x = s.localValue? x := funext fun _ => localValue?_bind
    rw [value?, chain_bind, hsame, value?]
  parent _ := parent?_bind
  depth h := by rw [depth, chain_bind, depth]
  defined h y := hasVariable_eq_isSome _ h y
  elsewhere f hf := by rw [Store.bind, frame?_modifyFrame, if_neg hf]
  events := rfl

/-- A variable that is set in a frame has the new value for every frame whose walk meets this one
before any other that has the variable, even if the assignment is for a frame further out. -/
theorem value?_set_of_meets (hs : s.Ordered) (he : s.Has e)
    (h : s.Meets (Shows (s.localValue? x)) e t) : (s.set t x v).value? e x = some v := by
  have ht : s.Has t := h.encloses.has hs he
  have hmeets : s.Meets (Shows (s.localValue? x)) e (s.target t x) := by
    rcases (isTarget_iff hs ht).mpr rfl with ⟨hwalk, -⟩ | ⟨htarget, -⟩
    · exact h.trans hwalk
    · exact htarget.symm ▸ h
  exact (assigned_setLocal hs (has_of_mem_chain (target_mem_chain ht)).1).values.seen e hmeets

/-- What the three ways to write to a store do to the lookups from every frame. -/
theorem assignment_law (hs : s.Reachable) (he : s.Has e) (x : Text) (v : Expression) (z : Text)
    (c : Closure) :
    (∃ t, s.IsTarget e x t) ∧
      (∀ t, s.IsTarget e x t → s.Assigned (s.set e x v) t x v) ∧
      s.Assigned (s.setLocal e x v) e x v ∧
      s.Bound (s.bind e z c) e z c := by
  have hordered := hs.ordered
  refine ⟨⟨_, (isTarget_iff hordered he).mpr rfl⟩, fun t ht => ?_, assigned_setLocal hordered he,
    bound_bind hordered he⟩
  have htarget := (isTarget_iff hordered he).mp ht
  have hhas : s.Has t := (has_of_mem_chain (htarget ▸ target_mem_chain he)).1
  have hset : s.set e x v = s.setLocal t x v := htarget ▸ rfl
  exact hset ▸ assigned_setLocal hordered hhas

/-- An assignment in a frame inside the global one, to a variable of the global one. -/
theorem assignment_law_outer :
    let one : Expression := ⟨"1".toList, [], 1⟩
    let two : Expression := ⟨"2".toList, [], 2⟩
    let s : Store := perform {} [.newGlobal, .newChild ⟨0⟩, .setLocal ⟨0⟩ "x".toList one]
    s.Reachable ∧ s.Has ⟨1⟩ ∧ s.IsTarget ⟨1⟩ "x".toList ⟨0⟩ ∧
      (s.set ⟨1⟩ "x".toList two).value? ⟨0⟩ "x".toList = some two := by
  intro one two s
  have hreachable : s.Reachable := ⟨_, by decide, rfl⟩
  have hhas : s.Has ⟨1⟩ := by decide
  have htarget : s.IsTarget ⟨1⟩ "x".toList ⟨0⟩ := .inl ⟨.out (by decide) rfl (.here _), by decide⟩
  obtain ⟨-, hset, -⟩ := assignment_law hreachable hhas "x".toList two [] ⟨[], [], [], ⟨0⟩⟩
  exact ⟨hreachable, hhas, htarget, (hset _ htarget).values.seen _ (.here _)⟩

end Store
end Stylesheet
