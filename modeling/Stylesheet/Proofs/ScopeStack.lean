import Stylesheet.Proofs.Evaluation

/-!
# Evaluation on a stack of scopes

Frames are shared cells that outlive the scopes they were made for.  A plain interpreter needs no
cells: it keeps a stack of tables, one for each open scope, pushes an empty one for the children of
a ruleset and pops it behind them (`Node.interpretAll`).  `Store.evaluated_refines_interpretAll`
says that what evaluation does to the frames from one outwards is what this interpreter does to the
stack of their tables, and that it leaves every other frame alone.
-/
namespace Stylesheet

/-- The table with every value replaced. -/
def Table.map {α β : Type} (g : α → β) (t : Table α) : Table β :=
  ⟨t.entries.map fun entry => (entry.1, g entry.2)⟩

theorem Table.map_insert {α β : Type} (g : α → β) (t : Table α) (name : Text) (value : α) :
    (t.insert name value).map g = (t.map g).insert name (g value) := by
  simp only [map, insert, List.map_cons, List.filter_map]
  rfl

/-! ### The interpreter -/

/-- The variables and the blocks of one scope. -/
structure Tables where
  vars : Table Expression := {}
  blocks : Table (List Parameter × List Node) := {}

namespace Tables

/-- The tables with a value for a variable. -/
def set (t : Tables) (name : Text) (value : Expression) : Tables :=
  { t with vars := t.vars.insert name value }

/-- The tables with the parameters and the body of a block definition. -/
def bind (t : Tables) (block : BlockDefinition) (body : List Node) : Tables :=
  { t with blocks := t.blocks.insert block.name (block.parameters, body) }

/-- Overwrites a variable in the first tables of a stack that have it. -/
def overwrite (name : Text) (value : Expression) : List Tables → List Tables
  | [] => []
  | t :: ts => if t.vars.has name then t.set name value :: ts else t :: overwrite name value ts

/-- An assignment: a variable that no tables have is added to the head, any other one is overwritten
unless the assignment is guarded. -/
def assign (name : Text) (value : Expression) (guarded : Bool) (stack : List Tables) :
    List Tables :=
  if stack.any fun t => t.vars.has name then
    if guarded then stack else overwrite name value stack
  else
    stack.modifyHead fun t => t.set name value

end Tables

mutual

/-- Runs a node on a stack of tables, the innermost scope first. -/
def Node.interpret : Node → List Tables → List Tables
  | ⟨kind, _, children⟩, stack =>
    match kind with
    | .definition block => stack.modifyHead fun t => t.bind block children
    | .assignment name value guarded => Tables.assign name value guarded stack
    | .root => Node.interpretAll children stack
    | .ruleset _ | .atRule _ _ => (Node.interpretAll children ({} :: stack)).tail
    | _ => stack

/-- Runs nodes one after the other. -/
def Node.interpretAll : List Node → List Tables → List Tables
  | [], stack => stack
  | node :: nodes, stack => Node.interpretAll nodes (node.interpret stack)

end

theorem Node.interpret_scoped {kind : NodeKind} (h : kind.Scoped) (line : Nat)
    (children : List Node) (stack : List Tables) :
    Node.interpret ⟨kind, line, children⟩ stack =
      (Node.interpretAll children ({} :: stack)).tail := by
  cases kind with
  | ruleset => rfl
  | atRule => rfl
  | _ => exact h.elim

theorem Node.interpret_inert {kind : NodeKind} (h : kind.Inert) (line : Nat) (children : List Node)
    (stack : List Tables) : Node.interpret ⟨kind, line, children⟩ stack = stack := by
  cases kind with
  | definition => exact h.elim
  | assignment => exact h.elim
  | root => exact h.elim
  | ruleset => exact h.elim
  | atRule => exact h.elim
  | _ => rfl

/-! ### Frames as a stack -/

/-- The tables of a frame. What a block remembers of the frame it was made in is left out. -/
def Frame.tables (frame : Frame) : Tables :=
  ⟨frame.vars, frame.blocks.map fun closure => (closure.parameters, closure.body)⟩

namespace Store

/-- The tables of the frame of an environment. -/
def tables (s : Store) (e : Env) : Tables :=
  ((s.frame? e).getD {}).tables

/-- The tables of the frames from one outwards. -/
def stack (s : Store) (e : Env) : List Tables :=
  (s.chain e).map s.tables

variable {s s' : Store} {env e f t : Env} {nodes : List Node} {name : Text} {value : Expression}
  {guarded : Bool} {block : BlockDefinition} {body : List Node}

theorem has_vars_tables (s : Store) (name : Text) (e : Env) :
    (s.tables e).vars.has name = (s.localValue? name e).isSome := by
  rw [tables, localValue?]
  cases s.frame? e <;> rfl

theorem tables_modifyFrame (change : Tables → Tables) {write : Frame → Frame}
    (hwrite : ∀ frame, (write frame).tables = change frame.tables) (ht : s.Has t) :
    (s.modifyFrame t write).tables f = if f = t then change (s.tables f) else s.tables f := by
  rw [tables, frame?_modifyFrame]
  split
  · rename_i hf
    obtain ⟨frame, hframe⟩ := ht.exists_frame
    rw [tables, hf, hframe]
    exact hwrite frame
  · rfl

theorem tables_setLocal (ht : s.Has t) :
    (s.setLocal t name value).tables f = if f = t then (s.tables f).set name value
    else s.tables f :=
  tables_modifyFrame (fun t => t.set name value) (fun _ => rfl) ht

theorem tables_define (he : s.Has env) :
    (s.define env block body).tables f = if f = env then (s.tables f).bind block body
    else s.tables f :=
  tables_modifyFrame (fun t => t.bind block body)
    (fun frame => congrArg (Tables.mk frame.vars) (Table.map_insert _ _ _ _)) he

/-- A change to the tables of the frame at the head. -/
theorem map_chain_head (he : s.Has env) (write : Tables → Tables) :
    ((s.chain env).map fun f => if f = env then write (s.tables f) else s.tables f) =
      (s.stack env).modifyHead write := by
  obtain ⟨others, hchain⟩ := exists_chain_cons he
  have hnodup := s.nodup_chain env
  rw [hchain, List.nodup_cons] at hnodup
  rw [stack, hchain, List.map_cons, List.map_cons, if_pos rfl, List.modifyHead_cons]
  exact congrArg _ (List.map_congr_left fun f hf => if_neg fun heq : f = env => hnodup.1 (heq ▸ hf))

/-- The first tables of a stack that have a variable are those of the first of its frames that has
it. -/
theorem overwrite_map {frames : List Env} (hnodup : frames.Nodup) (g : Env → Tables)
    (hfind : (frames.find? fun f => (g f).vars.has name) = some t) :
    Tables.overwrite name value (frames.map g) = frames.map fun f =>
      if f = t then (g f).set name value else g f := by
  induction frames with
  | nil => cases hfind
  | cons f frames ih =>
    obtain ⟨hmem, hnodup⟩ := List.nodup_cons.mp hnodup
    rw [List.map_cons, List.map_cons, Tables.overwrite]
    rw [List.find?_cons] at hfind
    cases hf : (g f).vars.has name with
    | true =>
      rw [hf] at hfind
      obtain rfl : f = t := Option.some.inj hfind
      rw [if_pos rfl, if_pos rfl]
      exact congrArg _
        (List.map_congr_left fun f' hf' => (if_neg fun heq : f' = f => hmem (heq ▸ hf')).symm)
    | false =>
      rw [hf] at hfind
      have hne : f ≠ t := fun heq => hmem (heq ▸ List.mem_of_find?_eq_some hfind)
      rw [if_neg Bool.false_ne_true, if_neg hne, ih hnodup hfind]

theorem stack_define (he : s.Has env) :
    (s.define env block body).stack env = (s.stack env).modifyHead fun t => t.bind block body := by
  rw [← map_chain_head he, stack, extends_define.chain_eq he]
  exact List.map_congr_left fun f _ => tables_define he

theorem stack_setLocal (ht : s.Has t) : (s.setLocal t name value).stack env =
    (s.chain env).map fun f => if f = t then (s.tables f).set name value else s.tables f := by
  rw [stack, chain_setLocal]
  exact List.map_congr_left fun f _ => tables_setLocal ht

theorem definer?_eq_find?_tables (s : Store) (env : Env) (name : Text) :
    s.definer? env name = (s.chain env).find? fun f => (s.tables f).vars.has name := by
  simp only [definer?, has_vars_tables]

theorem any_stack_eq_hasVariable (s : Store) (env : Env) (name : Text) :
    ((s.stack env).any fun t => t.vars.has name) = s.hasVariable env name := by
  rw [stack, List.any_map, hasVariable, definer?_eq_find?_tables, Bool.eq_iff_iff,
    List.find?_isSome, List.any_eq_true]
  rfl

theorem stack_set_of_some (hdefiner : s.definer? env name = some t) :
    (s.set env name value).stack env = Tables.overwrite name value (s.stack env) := by
  have hfind := (s.definer?_eq_find?_tables env name).symm.trans hdefiner
  have ht : s.Has t := (has_of_mem_chain (List.mem_of_find?_eq_some hfind)).1
  rw [set, hdefiner, Option.getD_some, stack_setLocal ht]
  exact (overwrite_map (s.nodup_chain env) s.tables hfind).symm

theorem stack_set_of_none (he : s.Has env) (hdefiner : s.definer? env name = none) :
    (s.set env name value).stack env = (s.stack env).modifyHead fun t => t.set name value := by
  rw [set, hdefiner, Option.getD_none, stack_setLocal he]
  exact map_chain_head he fun t => t.set name value

theorem stack_assign (he : s.Has env) :
    (s.assign env name value guarded).stack env =
      Tables.assign name value guarded (s.stack env) := by
  rw [assign, Tables.assign, any_stack_eq_hasVariable, hasVariable]
  cases hdefiner : s.definer? env name with
  | none =>
    rw [Option.isSome_none, Bool.and_false, if_neg Bool.false_ne_true, if_neg Bool.false_ne_true]
    exact stack_set_of_none he hdefiner
  | some t =>
    rw [Option.isSome_some, Bool.and_true, if_pos rfl]
    cases guarded with
    | true => rfl
    | false => exact stack_set_of_some hdefiner

theorem stack_newChild (he : s.Has env) :
    (s.newChild env).2.stack (s.newChild env).1 = {} :: s.stack env := by
  rw [stack, chain_newChild he, List.map_cons]
  refine congr (congrArg _ ?_) (List.map_congr_left fun f hf => ?_)
  · rw [tables]
    exact congrArg (fun frame? => (Option.getD frame? {}).tables) frame?_allocate_new
  · rw [tables, tables]
    exact congrArg (fun frame? => (Option.getD frame? {}).tables)
      (frame?_allocate_of_has (has_of_mem_chain hf).1)

/-! ### Evaluation -/

/-- Evaluation changes the tables of the frames around it as the interpreter does. -/
theorem Executes.stack_eq (h : Executes env nodes s s') (he : s.Has env) :
    s'.stack env = Node.interpretAll nodes (s.stack env) := by
  -- each step changes the stack as the interpreter does at its node, and leaves the frame it is in
  -- where it is
  induction h with
  | nil => rfl
  | define _ ih =>
    rw [ih (has_define.mpr he), stack_define he]
    rfl
  | assign _ ih =>
    rw [ih (has_assign.mpr he), stack_assign he]
    rfl
  | root inner _ ihinner ih =>
    rw [ih (inner.extends.has _ he), ihinner he]
    rfl
  | @scope env s s₁ s' kind line children nodes hkind inner _ ihinner ih =>
    have hextends := inner.extends_of_newChild
    -- the stack of the new frame is the one of the frame around it, below one more pair of tables
    have hpop : (s₁.stack (s.newChild env).1).tail = s₁.stack env := by
      rw [stack, inner.extends.chain_eq has_newChild_new, chain_newChild he, ← hextends.chain_eq he]
      rfl
    rw [ih (hextends.has _ he), Node.interpretAll, Node.interpret_scoped hkind, ← stack_newChild he,
      ← ihinner has_newChild_new, hpop]
  | skip hkind _ ih =>
    rw [ih he, Node.interpretAll, Node.interpret_inert hkind]

/-- Evaluation leaves a frame alone that does not lie around it. -/
theorem Executes.frame?_eq (h : Executes env nodes s s') (he : s.Has env) (hf : s.Has f)
    (hmem : f ∉ s.chain env) : s'.frame? f = s.frame? f := by
  induction h with
  | nil => rfl
  | define _ ih =>
    rw [ih (has_define.mpr he) (has_define.mpr hf) (by rwa [extends_define.chain_eq he]),
      frame?_define, Store.bind, frame?_modifyFrame,
      if_neg fun heq : f = _ => hmem (heq ▸ mem_chain_self he)]
  | @assign env s s' name value guarded _ _ _ _ ih =>
    rw [ih (has_assign.mpr he) (has_assign.mpr hf) (by rwa [extends_assign.chain_eq he])]
    rcases s.assign_cases env name value guarded with heq | heq
    · rw [heq]
    · rw [heq, setLocal, frame?_modifyFrame,
        if_neg fun heq : f = _ => hmem (heq ▸ target_mem_chain he)]
  | root inner _ ihinner ih =>
    rw [ih (inner.extends.has _ he) (inner.extends.has _ hf) (by rwa [inner.extends.chain_eq he]),
      ihinner he hf hmem]
  | @scope env s s₁ s' _ _ _ _ _ inner _ ihinner ih =>
    have hextends := inner.extends_of_newChild
    have hnew : f ∉ (s.newChild env).2.chain (s.newChild env).1 := by
      rw [chain_newChild he, List.mem_cons, not_or]
      exact ⟨fun heq => not_has_allocate (heq ▸ hf), hmem⟩
    rw [ih (hextends.has _ he) (hextends.has _ hf) (by rwa [hextends.chain_eq he]),
      ihinner has_newChild_new (has_allocate.mpr (.inl hf)) hnew]
    exact frame?_allocate_of_has hf
  | skip _ _ ih => exact ih he hf hmem

/-- In two stores a frame has the same variables, with whatever values, and the same blocks. -/
structure SameNames (s s' : Store) (f : Env) : Prop where
  vars : ∀ x, Shows (s'.localValue? x) f ↔ Shows (s.localValue? x) f
  blocks : ∀ m, s'.localBlock? m f = s.localBlock? m f

theorem SameNames.trans {s'' : Store} (h : s.SameNames s' f) (h' : s'.SameNames s'' f) :
    s.SameNames s'' f :=
  ⟨fun x => (h'.vars x).trans (h.vars x), fun m => (h'.blocks m).trans (h.blocks m)⟩

theorem SameNames.of_frame (h : s'.frame? f = s.frame? f) : s.SameNames s' f :=
  ⟨fun x => by rw [Shows, localValue?, h, ← localValue?, Shows],
    fun m => by rw [localBlock?, h, ← localBlock?]⟩

/-- A block definition gives no frame a new name but the one it stands in. -/
theorem sameNames_define (he : s.Has env) (hne : f ≠ env) :
    s.SameNames (s.define env block body) f :=
  ⟨fun x => by rw [Shows, localValue?_define, Shows],
    fun m => by rw [localBlock?_define he, if_neg fun heq => hne heq.1]⟩

/-- An assignment gives no frame a new name but the one it stands in. -/
theorem sameNames_assign (he : s.Has env) (hne : f ≠ env) :
    s.SameNames (s.assign env name value guarded) f := by
  refine ⟨fun x => ?_, fun m => localBlock?_assign⟩
  rcases s.assign_cases env name value guarded with h | h
  · rw [h]
  · have ht : s.Has (s.target env name) := (has_of_mem_chain (target_mem_chain he)).1
    rw [h, Shows, localValue?_setLocal ht, Shows]
    split
    · rename_i heq
      rcases s.target_cases env name with ⟨-, hshows⟩ | ⟨htarget, -⟩
      · exact iff_of_true rfl (heq.1 ▸ heq.2 ▸ hshows)
      · exact absurd (heq.1.trans htarget) hne
    · exact Iff.rfl

/-- Evaluation gives no frame a new name but the one it is in and those it makes. -/
theorem Executes.sameNames (h : Executes env nodes s s') (he : s.Has env) (hf : s.Has f)
    (hne : f ≠ env) : s.SameNames s' f := by
  induction h with
  | nil => exact .of_frame rfl
  | define _ ih =>
    exact (sameNames_define he hne).trans (ih (has_define.mpr he) (has_define.mpr hf) hne)
  | assign _ ih =>
    exact (sameNames_assign he hne).trans (ih (has_assign.mpr he) (has_assign.mpr hf) hne)
  | root inner _ ihinner ih =>
    exact (ihinner he hf hne).trans (ih (inner.extends.has _ he) (inner.extends.has _ hf) hne)
  | @scope env s s₁ s' _ _ _ _ _ inner _ ihinner ih =>
    have hextends := inner.extends_of_newChild
    have hinner : (s.newChild env).2.SameNames s₁ f :=
      ihinner has_newChild_new (has_allocate.mpr (.inl hf)) fun heq => not_has_allocate (heq ▸ hf)
    exact ((SameNames.of_frame (frame?_allocate_of_has hf)).trans hinner).trans
      (ih (hextends.has _ he) (hextends.has _ hf) hne)
  | skip _ _ ih => exact ih he hf hne

/-- A node with a scope of its own gives no frame a new name that was there before. -/
theorem sameNames_of_scoped {kind : NodeKind} (hkind : kind.Scoped) (hf : s.Has f) (line : Nat)
    (children : List Node) (env : Env) :
    s.SameNames (s.evaluated [⟨kind, line, children⟩] env) f := by
  rw [evaluated_scoped hkind, evaluated_nil]
  exact (SameNames.of_frame (frame?_allocate_of_has hf)).trans
    ((executes _ children _).sameNames has_newChild_new (has_allocate.mpr (.inl hf))
      fun heq => not_has_allocate (heq ▸ hf))

/-- Evaluation in a frame of any store refines the interpreter that keeps a stack: the frames from
that one outwards stay the same ones, and their tables are those that the interpreter computes from
what they were. Every other frame stays as it was, and no ruleset or directive gives a variable or a
block to a frame that was there before it. -/
theorem evaluated_refines_interpretAll (s : Store) (env : Env) (he : s.Has env)
    (nodes : List Node) :
    s.stack env ≠ [] ∧
      (s.evaluated nodes env).chain env = s.chain env ∧
      (s.evaluated nodes env).stack env = Node.interpretAll nodes (s.stack env) ∧
      (∀ f, s.Has f → f ∉ s.chain env → (s.evaluated nodes env).frame? f = s.frame? f) ∧
      ∀ kind line children, kind.Scoped → ∀ f, s.Has f →
        (∀ x, Shows ((s.evaluated [⟨kind, line, children⟩] env).localValue? x) f →
          Shows (s.localValue? x) f) ∧
          ∀ m, Shows ((s.evaluated [⟨kind, line, children⟩] env).localBlock? m) f →
          Shows (s.localBlock? m) f := by
  have hrun := executes s nodes env
  refine ⟨?_, hrun.extends.chain_eq he, hrun.stack_eq he,
    fun f hf hmem => hrun.frame?_eq he hf hmem, ?_⟩
  · obtain ⟨others, hchain⟩ := exists_chain_cons he
    rw [stack, hchain, List.map_cons]
    exact List.cons_ne_nil _ _
  · intro kind line children hkind f hf
    have hnames := sameNames_of_scoped hkind hf line children env
    exact ⟨fun x => (hnames.vars x).mp, fun m h => by rwa [Shows, hnames.blocks m] at h⟩

/-- A ruleset overwrites a variable of the global frame; what it adds is gone with its scope. -/
theorem evaluated_refines_interpretAll_ruleset :
    let one : Expression := ⟨"1".toList, [], 1⟩
    let two : Expression := ⟨"2".toList, [], 2⟩
    let rule : Node := ⟨.ruleset "a".toList, 2, [.leaf (.assignment "x".toList two false) 2,
      .leaf (.assignment "y".toList two false) 2]⟩
    let s : Store := ({} : Store).newGlobal.2
    s.Has ⟨0⟩ ∧ (s.evaluated [.leaf (.assignment "x".toList one false) 1, rule] ⟨0⟩).stack ⟨0⟩ =
      [⟨⟨[("x".toList, two)]⟩, {}⟩] := by
  intro one two rule s
  have hhas : s.Has ⟨0⟩ := Nat.zero_lt_one
  have hstack : s.stack ⟨0⟩ = [{}] := by
    rw [stack, chain_of_global hhas rfl]
    rfl
  refine ⟨hhas, (evaluated_refines_interpretAll s ⟨0⟩ hhas _).2.2.1.trans ?_⟩
  rw [hstack]
  rfl

end Store
end Stylesheet
