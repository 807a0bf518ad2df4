import Stylesheet.Proofs.Operations

/-!
# The frames are a forest

The frames of a store refer to each other both ways: a frame to the one around it, and the closures
bound in it to the frames they were made in, often the same one.  A lookup follows the first kind of
reference only, and calls itself on the frame around until there is none.  `Store.chain` compares
the places of the frames on its way and would end in any store, so nothing can be learned from it
here: `Store.Path`, `Store.Finds` and `Store.Depth` follow the references as they stand.

A frame gets its parent when it is made, an earlier frame, and keeps it (`Store.forest_perform`).
That holds as well of the stores in the middle of an evaluation, whose own assignments look
variables up (`Store.Passes`).
-/
namespace Stylesheet
namespace Store

/-! ### Following the parents -/

/-- Following the parents from a frame leads through these frames, to one without a parent. -/
inductive Path (s : Store) : Env → List Env → Prop
  | last {e : Env} (has : s.Has e) (global : s.parent? e = none) : Path s e [e]
  | out {e o : Env} {es : List Env} (parent : s.parent? e = some o) (path : Path s o es) :
      Path s e (e :: es)

/-- A lookup that asks a frame, and then calls itself on the frame around if there is one, ends with
this answer. -/
inductive Finds (s : Store) {α : Type} (g : Env → Option α) : Env → Option α → Prop
  | here {e : Env} {a : α} (found : g e = some a) : Finds s g e (some a)
  | last {e : Env} (absent : g e = none) (has : s.Has e) (global : s.parent? e = none) :
      Finds s g e none
  | out {e o : Env} {r : Option α} (absent : g e = none) (parent : s.parent? e = some o)
      (outer : Finds s g o r) :
      Finds s g e r

/-- Counting the frames around a frame, one more than around its parent, ends with this number. -/
inductive Depth (s : Store) : Env → Nat → Prop
  | global {e : Env} (has : s.Has e) (global : s.parent? e = none) : Depth s e 0
  | inside {e o : Env} {n : Nat} (parent : s.parent? e = some o) (outer : Depth s o n) :
      Depth s e (n + 1)

variable {s s' : Store} {e o : Env}

theorem Path.unique {es es' : List Env} (h : s.Path e es) (h' : s.Path e es') : es' = es := by
  induction h generalizing es' with
  | last _ global =>
    cases h' with
    | last => rfl
    | out parent => rw [global] at parent; cases parent
  | out parent _ ih =>
    cases h' with
    | last _ global => rw [global] at parent; cases parent
    | out parent' path' =>
      rw [parent] at parent'
      cases parent'
      rw [ih path']

theorem Finds.unique {α : Type} {g : Env → Option α} {r r' : Option α} (h : s.Finds g e r)
    (h' : s.Finds g e r') : r' = r := by
  induction h generalizing r' with
  | here found =>
    cases h' with
    | here found' => rw [← found', found]
    | last absent => rw [absent] at found; cases found
    | out absent => rw [absent] at found; cases found
  | last absent _ global =>
    cases h' with
    | here found => rw [absent] at found; cases found
    | last => rfl
    | out _ parent => rw [global] at parent; cases parent
  | out absent parent _ ih =>
    cases h' with
    | here found => rw [absent] at found; cases found
    | last _ _ global => rw [global] at parent; cases parent
    | out _ parent' outer' =>
      rw [parent] at parent'
      cases parent'
      exact ih outer'

theorem Depth.unique {n n' : Nat} (h : s.Depth e n) (h' : s.Depth e n') : n' = n := by
  induction h generalizing n' with
  | global _ global =>
    cases h' with
    | global => rfl
    | inside parent => rw [global] at parent; cases parent
  | inside parent _ ih =>
    cases h' with
    | global _ global => rw [global] at parent; cases parent
    | inside parent' outer' =>
      rw [parent] at parent'
      cases parent'
      rw [ih outer']

/-! ### Where every frame lies inside an earlier one -/

section
variable (hs : s.Ordered)
include hs

/-- What holds of the global frames, and of a frame if it holds of its parent, holds of all
frames. -/
theorem Ordered.induction {P : Env → Prop} (global : ∀ e, s.Has e → s.parent? e = none → P e)
    (inside : ∀ e o, s.parent? e = some o → s.Has o → P o → P e) : s.Has e → P e := by
  refine s.walk_induction (P := fun e => s.Has e → P e) ?_ ?_ ?_ e
  · exact fun e hnot he => absurd he hnot
  · intro e _ _ hlast he
    cases hparent : s.parent? e with
    | none => exact global e he hparent
    | some o => exact absurd (hs e o hparent) (hlast o hparent)
  · intro e o hparent hlt _ ih he
    have ho : s.Has o := Nat.lt_trans hlt he
    exact inside e o hparent ho (ih ho)

theorem Ordered.path (he : s.Has e) : s.Path e (s.chain e) := by
  refine hs.induction (P := fun e => s.Path e (s.chain e)) ?_ ?_ he
  · intro e he hglobal
    rw [chain_of_global he hglobal]
    exact .last he hglobal
  · intro e o hparent _ ih
    rw [chain_of_parent hs hparent]
    exact .out hparent ih

theorem Ordered.finds {α : Type} (g : Env → Option α) (he : s.Has e) :
    s.Finds g e ((s.chain e).findSome? g) := by
  refine hs.induction (P := fun e => s.Finds g e ((s.chain e).findSome? g)) ?_ ?_ he
  · intro e he hglobal
    rw [chain_of_global he hglobal, List.findSome?_singleton]
    cases hg : g e with
    | some a => exact .here hg
    | none => exact .last hg he hglobal
  · intro e o hparent _ ih
    rw [chain_of_parent hs hparent, List.findSome?_cons]
    cases hg : g e with
    | some a => exact .here hg
    | none => exact .out hg hparent ih

theorem depth_of_parent (hparent : s.parent? e = some o) (ho : s.Has o) :
    s.depth e = s.depth o + 1 := by
  obtain ⟨others, hchain⟩ := exists_chain_cons ho
  rw [depth, depth, chain_of_parent hs hparent, hchain, List.length_cons, List.length_cons]
  omega

theorem Ordered.depth (he : s.Has e) : s.Depth e (s.depth e) := by
  refine hs.induction (P := fun e => s.Depth e (s.depth e)) ?_ ?_ he
  · intro e he hglobal
    rw [Store.depth, chain_of_global he hglobal]
    exact .global he hglobal
  · intro e o hparent ho ih
    rw [depth_of_parent hs hparent ho]
    exact .inside hparent ih

end

/-! ### Forests -/

/-- From every frame of a store the parents lead to a global frame, and whatever follows them comes
to an end. -/
structure Forest (s : Store) : Prop where
  /-- Following the parents passes finitely many frames, and none of them twice. -/
  path : ∀ e, s.Has e → (s.chain e).Nodup ∧ ∀ es, s.Path e es ↔ es = s.chain e
  /-- A frame lies one deeper than its parent. -/
  step : ∀ e o, s.parent? e = some o → s.Has o ∧ s.depth e = s.depth o + 1
  /-- So does a frame that is made now. -/
  child : ∀ e, s.Has e → (s.newChild e).2.parent? (s.newChild e).1 = some e ∧
    (s.newChild e).2.depth (s.newChild e).1 = s.depth e + 1
  /-- The count of the frames around ends. -/
  depth : ∀ e, s.Has e → ∀ n, s.Depth e n ↔ n = s.depth e
  /-- The lookup of a variable ends. -/
  value : ∀ e, s.Has e → ∀ x r, s.Finds (s.localValue? x) e r ↔ r = s.value? e x
  /-- The search for the frame that has a variable ends. -/
  definer : ∀ e, s.Has e → ∀ x r,
    s.Finds (Option.guard fun f => (s.localValue? x f).isSome) e r ↔ r = s.definer? e x
  /-- With it, a variable is found to have a value or not, and an assignment finds the frame to
  write to. -/
  assigns : ∀ e, s.Has e → ∀ x v, s.hasVariable e x = (s.definer? e x).isSome ∧
    s.set e x v = s.setLocal ((s.definer? e x).getD e) x v ∧ s.Has ((s.definer? e x).getD e)
  /-- The lookup of a block ends. -/
  block : ∀ e, s.Has e → ∀ x r, s.Finds (s.localBlock? x) e r ↔ r = s.block? e x

theorem Ordered.finds_iff (hs : s.Ordered) {α : Type} (g : Env → Option α) (he : s.Has e)
    (r : Option α) : s.Finds g e r ↔ r = (s.chain e).findSome? g := by
  refine ⟨(hs.finds g he).unique, ?_⟩
  rintro rfl
  exact hs.finds g he

theorem Ordered.depth_newChild (hs : s.Ordered) (he : s.Has e) :
    (s.newChild e).2.depth (s.newChild e).1 = s.depth e + 1 := by
  have hnew : (s.newChild e).2.Ordered := hs.allocate fun _ ho => Option.some.inj ho ▸ he
  have hparent : (s.newChild e).2.parent? (s.newChild e).1 = some e := parent?_allocate_new
  have hextends : s.Extends (s.newChild e).2 := s.extends_allocate (some e)
  rw [depth_of_parent hnew hparent (hextends.has e he), Store.depth, Store.depth,
    hextends.chain_eq he]

theorem Ordered.forest (hs : s.Ordered) : s.Forest where
  path e he := by
    refine ⟨s.nodup_chain e, fun es => ⟨(hs.path he).unique, ?_⟩⟩
    rintro rfl
    exact hs.path he
  step e o hparent := by
    have ho : s.Has o := Nat.lt_trans (hs e o hparent) (has_of_parent hparent)
    exact ⟨ho, depth_of_parent hs hparent ho⟩
  child e he := ⟨parent?_allocate_new, hs.depth_newChild he⟩
  depth e he n := by
    refine ⟨(hs.depth he).unique, ?_⟩
    rintro rfl
    exact hs.depth he
  value e he x r := hs.finds_iff (s.localValue? x) he r
  definer e he x r := by
    rw [hs.finds_iff _ he, List.findSome?_guard, definer?]
  assigns e he x v := ⟨rfl, rfl, (has_of_mem_chain (target_mem_chain he)).1⟩
  block e he x r := hs.finds_iff (s.localBlock? x) he r

/-! ### In the middle of an evaluation -/

/-- A store that an evaluation of nodes passes through, the first and the last one among them. -/
inductive Passes : List Node → Env → Store → Store → Prop
  | start {nodes env} {s : Store} : Passes nodes env s s
  | next {node nodes env} {s m : Store} (others : Passes nodes env (s.evaluated [node] env) m) :
      Passes (node :: nodes) env s m
  | root {line children nodes env} {s m : Store} (inner : Passes children env s m) :
      Passes (⟨.root, line, children⟩ :: nodes) env s m
  | scope {kind line children nodes env} {s m : Store} (hkind : NodeKind.Scoped kind)
      (inner : Passes children (s.newChild env).1 (s.newChild env).2 m) :
      Passes (⟨kind, line, children⟩ :: nodes) env s m

section
variable {m : Store} {nodes : List Node} {env : Env}

theorem extends_evaluated (s : Store) (nodes : List Node) (env : Env) :
    s.Extends (s.evaluated nodes env) :=
  (executes s nodes env).extends

/-- The store that the evaluation ends in is one of them. -/
theorem Passes.evaluated (s : Store) (nodes : List Node) (env : Env) :
    Passes nodes env s (s.evaluated nodes env) := by
  induction nodes generalizing s with
  | nil => exact .start
  | cons node nodes ih => exact .next (ih _)

/-- The stores on the way keep the frames that were there before, and the last one keeps theirs. -/
theorem Passes.extends (h : Passes nodes env s m) :
    s.Extends m ∧ m.Extends (s.evaluated nodes env) := by
  induction h with
  | @start nodes env s => exact ⟨.refl s, s.extends_evaluated nodes env⟩
  | @next node _ env s _ _ ih => exact ⟨(s.extends_evaluated [node] env).trans ih.1, ih.2⟩
  | root _ ih =>
    rw [evaluated_root]
    exact ⟨ih.1, ih.2.trans (extends_evaluated _ _ _)⟩
  | scope hkind _ ih =>
    rw [evaluated_scoped hkind]
    exact ⟨(extends_allocate _ _).trans ih.1, ih.2.trans (extends_evaluated _ _ _)⟩

theorem Passes.ordered (h : Passes nodes env s m) (he : s.Has env) (hs : s.Ordered) :
    m.Ordered := by
  induction h with
  | start => exact hs
  | @next node _ env s _ _ ih =>
    exact ih ((s.extends_evaluated [node] env).has env he) ((executes s [node] env).ordered he hs)
  | root _ ih => exact ih he hs
  | scope _ _ ih => exact ih has_newChild_new (hs.allocate fun _ ho => Option.some.inj ho ▸ he)

end

/-! ### Whole runs -/

theorem perform_append (s : Store) (before after : List Operation) :
    s.perform (before ++ after) = (s.perform before).perform after := by
  induction before generalizing s with
  | nil => rfl
  | cons op before ih => exact ih (op.run s)

/-- After any run from the empty store the frames are a forest, and every frame still has the parent
that it had at any earlier point of the run. The same is true at each point of a further evaluation,
of the frames that it makes itself as well. -/
theorem forest_perform {before after : List Operation} (h : Accepts {} (before ++ after)) :
    let s : Store := perform {} before
    let s' : Store := perform {} (before ++ after)
    (∀ f, s.Has f → s'.Has f ∧ s'.parent? f = s.parent? f) ∧
      s'.Forest ∧
      ∀ nodes env m, s'.Has env → Passes nodes env s' m →
        (∀ f, s'.Has f → m.Has f ∧ m.parent? f = s'.parent? f) ∧
          (∀ f, m.Has f → (s'.evaluated nodes env).Has f ∧
            (s'.evaluated nodes env).parent? f = m.parent? f) ∧
          m.Forest := by
  intro s s'
  have hs' : s'.Ordered := ordered_empty.perform h
  have hextends : s.Extends s' := by
    have h := s.extends_perform after
    rwa [← perform_append] at h
  refine ⟨fun f hf => ⟨hextends.has f hf, hextends.parent f hf⟩, hs'.forest, ?_⟩
  intro nodes env m henv hm
  obtain ⟨hbefore, hbehind⟩ := hm.extends
  exact ⟨fun f hf => ⟨hbefore.has f hf, hbefore.parent f hf⟩,
    fun f hf => ⟨hbehind.has f hf, hbehind.parent f hf⟩, (hm.ordered henv hs').forest⟩

/-- A frame with a closure over itself, and a ruleset that is evaluated in it: a lookup of an
unknown block from the inner frame still ends. -/
theorem forest_perform_closure_over_itself :
    let before : List Operation :=
      [.newGlobal, .newChild ⟨0⟩, .bind ⟨1⟩ "m".toList ⟨"m".toList, [], [], ⟨1⟩⟩]
    let after : List Operation := [.evaluate [.leaf (.ruleset "a".toList) 1] ⟨1⟩]
    let s : Store := perform {} (before ++ after)
    Accepts {} (before ++ after) ∧ s.parent? ⟨1⟩ = some ⟨0⟩ ∧ s.Path ⟨2⟩ [⟨2⟩, ⟨1⟩, ⟨0⟩] ∧
      s.Finds (s.localBlock? "n".toList) ⟨2⟩ none := by
  intro before after s
  have h : Accepts {} (before ++ after) := by decide
  have hhas : s.Has ⟨2⟩ := by decide
  have hchain : s.chain ⟨2⟩ = [⟨2⟩, ⟨1⟩, ⟨0⟩] := by
    have h2 : s.parent? ⟨2⟩ = some ⟨1⟩ := rfl
    have h1 : s.parent? ⟨1⟩ = some ⟨0⟩ := rfl
    rw [chain_of_lt h2 (by decide), chain_of_lt h1 (by decide), chain_of_global (by decide) rfl]
  obtain ⟨hparents, hforest, -⟩ := forest_perform h
  refine ⟨h, (hparents ⟨1⟩ (by decide)).2.trans rfl,
    ((hforest.path ⟨2⟩ hhas).2 _).mpr hchain.symm, ?_⟩
  refine (hforest.block ⟨2⟩ hhas "n".toList none).mpr ?_
  rw [block?]
  exact hchain ▸ rfl

end Store
end Stylesheet
