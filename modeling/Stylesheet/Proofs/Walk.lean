import Stylesheet.Scope.Store

/-!
# Walks outwards

A lookup walks from a frame outwards, to the first frame that has the name.  `Store.Meets` says what
a walk meets first, by the frames around a frame alone.  Where every frame lies inside an earlier
one (`Store.Ordered`) a lookup finds what this walk meets (`Store.findSome?_chain_eq_some`), and a
write to one frame shows exactly where the walk meets that frame before any other that has the name
(`Store.findSome?_chain_of_meets`, `Store.findSome?_chain_of_not_meets`).
-/
namespace Stylesheet

@[ext] theorem Env.ext {e f : Env} (h : e.index = f.index) : e = f := by
  cases e
  cases f
  exact congrArg Env.mk h

namespace Store

variable {s s' : Store} {e f o t : Env}

/-! ### Frames of a store -/

/-- The store has a frame at this place. -/
def Has (s : Store) (e : Env) : Prop :=
  e.index < s.frames.size

instance (s : Store) (e : Env) : Decidable (s.Has e) :=
  inferInstanceAs (Decidable (_ < _))

theorem frame?_eq_none_iff : s.frame? e = none ↔ ¬ s.Has e := by
  rw [frame?, Array.getElem?_eq_none_iff, Has, Nat.not_lt]

theorem Has.exists_frame (h : s.Has e) : ∃ frame, s.frame? e = some frame :=
  ⟨_, Array.getElem?_eq_getElem h⟩

theorem has_of_frame {frame : Frame} (h : s.frame? e = some frame) : s.Has e :=
  Decidable.of_not_not fun hnot => by
    rw [frame?_eq_none_iff.mpr hnot] at h
    cases h

theorem parent?_of_frame {frame : Frame} (h : s.frame? e = some frame) :
    s.parent? e = frame.parent := by
  rw [parent?, h]
  rfl

theorem has_of_parent (h : s.parent? e = some o) : s.Has e := by
  obtain ⟨frame, hframe, -⟩ := Option.bind_eq_some_iff.mp h
  exact has_of_frame hframe

/-- Every frame lies inside an earlier one, unless it is global. -/
def Ordered (s : Store) : Prop :=
  ∀ e o, s.parent? e = some o → o.index < e.index

/-! ### The frames from one outwards -/

theorem chain_of_not_has (h : ¬ s.Has e) : s.chain e = [] := by
  rw [chain, frame?_eq_none_iff.mpr h]

theorem chain_of_global (he : s.Has e) (h : s.parent? e = none) : s.chain e = [e] := by
  obtain ⟨frame, hframe⟩ := he.exists_frame
  rw [parent?_of_frame hframe] at h
  rw [chain, hframe]
  simp only [h]

/-- A frame comes before the chain of the older one around it. -/
theorem chain_of_lt (h : s.parent? e = some o) (hlt : o.index < e.index) :
    s.chain e = e :: s.chain o := by
  obtain ⟨frame, hframe⟩ := (has_of_parent h).exists_frame
  rw [parent?_of_frame hframe] at h
  rw [chain, hframe]
  simp only [h, if_pos hlt]

/-- The walk goes to older frames only, so that it ends. -/
theorem chain_of_not_lt (h : s.parent? e = some o) (hlt : ¬ o.index < e.index) :
    s.chain e = [e] := by
  obtain ⟨frame, hframe⟩ := (has_of_parent h).exists_frame
  rw [parent?_of_frame hframe] at h
  rw [chain, hframe]
  simp only [h, if_neg hlt]

/-- What holds of the places without a frame, and of a frame if it holds of the one around it, holds
of all. The frames get earlier on the way outwards. -/
theorem walk_induction {P : Env → Prop} (missing : ∀ e, ¬ s.Has e → P e)
    (last : ∀ e, s.Has e → s.chain e = [e] →
      (∀ o, s.parent? e = some o → ¬ o.index < e.index) → P e)
    (inside : ∀ e o, s.parent? e = some o → o.index < e.index →
      s.chain e = e :: s.chain o → P o → P e)
    (e : Env) : P e := by
  induction hn : e.index using Nat.strongRecOn generalizing e with
  | ind n ih =>
    by_cases he : s.Has e
    · cases hparent : s.parent? e with
      | none =>
        exact last e he (chain_of_global he hparent) fun o ho => by
          rw [hparent] at ho
          cases ho
      | some o =>
        by_cases hlt : o.index < e.index
        · exact inside e o hparent hlt (chain_of_lt hparent hlt) (ih o.index (hn ▸ hlt) o rfl)
        · exact last e he (chain_of_not_lt hparent hlt) fun o' ho' => by
            rw [hparent] at ho'
            cases ho'
            exact hlt
    · exact missing e he

theorem exists_chain_cons (he : s.Has e) : ∃ others, s.chain e = e :: others := by
  cases hparent : s.parent? e with
  | none => exact ⟨[], chain_of_global he hparent⟩
  | some o =>
    by_cases hlt : o.index < e.index
    · exact ⟨s.chain o, chain_of_lt hparent hlt⟩
    · exact ⟨[], chain_of_not_lt hparent hlt⟩

theorem mem_chain_self (he : s.Has e) : e ∈ s.chain e := by
  obtain ⟨others, hchain⟩ := exists_chain_cons he
  rw [hchain]
  exact List.mem_cons_self

/-- The frames of a chain exist, and none of them is newer than the first one. -/
theorem has_of_mem_chain : f ∈ s.chain e → s.Has f ∧ f.index ≤ e.index := by
  refine s.walk_induction (P := fun e => f ∈ s.chain e → s.Has f ∧ f.index ≤ e.index) ?_ ?_ ?_ e
  · intro e he hmem
    rw [chain_of_not_has he] at hmem
    cases hmem
  · intro e he hchain _ hmem
    rw [hchain, List.mem_singleton] at hmem
    subst hmem
    exact ⟨he, Nat.le_refl _⟩
  · intro e o ho hlt hchain ih hmem
    rw [hchain, List.mem_cons] at hmem
    rcases hmem with rfl | hmem
    · exact ⟨has_of_parent ho, Nat.le_refl _⟩
    · exact ⟨(ih hmem).1, Nat.le_of_lt (Nat.lt_of_le_of_lt (ih hmem).2 hlt)⟩

/-- A walk meets no frame twice. -/
theorem nodup_chain (s : Store) (e : Env) : (s.chain e).Nodup := by
  refine s.walk_induction (P := fun e => (s.chain e).Nodup) ?_ ?_ ?_ e
  · intro e he
    rw [chain_of_not_has he]
    exact List.nodup_nil
  · intro e _ hchain _
    rw [hchain]
    exact List.pairwise_singleton _ e
  · intro e o _ hlt hchain ih
    rw [hchain]
    exact List.nodup_cons.mpr ⟨fun hmem => Nat.not_lt_of_le (has_of_mem_chain hmem).2 hlt, ih⟩

/-- A store keeps the frames of another, each inside the same one. It may have further frames, and
other values in those it keeps. -/
structure Extends (s s' : Store) : Prop where
  has : ∀ f, s.Has f → s'.Has f
  parent : ∀ f, s.Has f → s'.parent? f = s.parent? f

theorem Extends.refl (s : Store) : s.Extends s :=
  ⟨fun _ h => h, fun _ _ => rfl⟩

theorem Extends.trans {s'' : Store} (h : s.Extends s') (h' : s'.Extends s'') : s.Extends s'' :=
  ⟨fun f hf => h'.has f (h.has f hf), fun f hf => (h'.parent f (h.has f hf)).trans (h.parent f hf)⟩

/-- What is added to a store is no part of the chains that it had. -/
theorem Extends.chain_eq (h : s.Extends s') : s.Has e → s'.chain e = s.chain e := by
  refine s.walk_induction (P := fun e => s.Has e → s'.chain e = s.chain e) ?_ ?_ ?_ e
  · exact fun e hnot he => absurd he hnot
  · intro e _ hchain hlast he
    rw [hchain]
    cases ho : s'.parent? e with
    | none => exact chain_of_global (h.has e he) ho
    | some o => exact chain_of_not_lt ho (hlast o ((h.parent e he).symm.trans ho))
  · intro e o ho hlt hchain ih he
    rw [hchain, chain_of_lt ((h.parent e he).trans ho) hlt, ih (Nat.lt_trans hlt he)]

/-! ### What a walk meets -/

/-- Walking from one frame outwards, another is met before any further frame with a property. -/
inductive Meets (s : Store) (p : Env → Prop) : Env → Env → Prop
  | here (e : Env) : Meets s p e e
  | out {e o t : Env} (skips : ¬ p e) (parent : s.parent? e = some o) (walk : Meets s p o t) :
      Meets s p e t

/-- One frame is another or lies around it. -/
def Encloses (s : Store) (t e : Env) : Prop :=
  s.Meets (fun _ => False) e t

variable {p : Env → Prop}

theorem Meets.encloses (h : s.Meets p e t) : s.Encloses t e := by
  induction h with
  | here e => exact .here e
  | out _ parent _ ih => exact .out id parent ih

/-- A walk may be taken up where it has ended. -/
theorem Meets.trans (h : s.Meets p e f) (h' : s.Meets p f t) : s.Meets p e t := by
  induction h with
  | here e => exact h'
  | out skips parent _ ih => exact .out skips parent (ih h')

theorem meets_congr {q : Env → Prop} (hparent : ∀ f, s'.parent? f = s.parent? f)
    (hp : ∀ f, q f ↔ p f) : s'.Meets q e t ↔ s.Meets p e t := by
  refine ⟨fun h => ?_, fun h => ?_⟩
  · induction h with
    | here e => exact .here e
    | out skips parent _ ih => exact .out (mt (hp _).mpr skips) ((hparent _).symm.trans parent) ih
  · induction h with
    | here e => exact .here e
    | out skips parent _ ih => exact .out (mt (hp _).mp skips) ((hparent _).trans parent) ih

/-! ### Lookups -/

section
variable {α : Type} {g g' : Env → Option α} {a v : α}

/-- A frame has something to look up. -/
def Shows (g : Env → Option α) (f : Env) : Prop :=
  (g f).isSome = true

instance (g : Env → Option α) (f : Env) : Decidable (Shows g f) :=
  inferInstanceAs (Decidable (_ = true))

theorem not_shows_iff : ¬ Shows g f ↔ g f = none :=
  Option.not_isSome_iff_eq_none

/-- After a write to one frame, nothing changes for a walk that does not meet this frame before any
other with something to look up. -/
theorem findSome?_chain_of_not_meets (hwrite : ∀ f, g' f = if f = t then some v else g f) :
    ¬ s.Meets (Shows g) e t → (s.chain e).findSome? g' = (s.chain e).findSome? g := by
  have hother {f : Env} (h : ¬ s.Meets (Shows g) f t) : g' f = g f :=
    (hwrite f).trans (if_neg fun heq : f = t => h (heq ▸ .here f))
  refine s.walk_induction (P := fun e => ¬ s.Meets (Shows g) e t →
    (s.chain e).findSome? g' = (s.chain e).findSome? g) ?_ ?_ ?_ e
  · intro e he _
    rw [chain_of_not_has he]
    rfl
  · intro e _ hchain _ h
    rw [hchain, List.findSome?_singleton, List.findSome?_singleton, hother h]
  · intro e o ho _ hchain ih h
    rw [hchain, List.findSome?_cons, List.findSome?_cons, hother h]
    cases hge : g e with
    | some a => rfl
    | none => exact ih fun hwalk => h (.out (not_shows_iff.mpr hge) ho hwalk)

variable (hs : s.Ordered)
include hs

/-- Every frame is newer than the one around it, so the walk goes on there. -/
theorem chain_of_parent (h : s.parent? e = some o) : s.chain e = e :: s.chain o :=
  chain_of_lt h (hs e o h)

/-- The frames of a walk are the frames that lie around its start. -/
theorem mem_chain_iff (he : s.Has e) : t ∈ s.chain e ↔ s.Encloses t e := by
  refine ⟨?_, fun h => ?_⟩
  · clear he
    refine s.walk_induction (P := fun e => t ∈ s.chain e → s.Encloses t e) ?_ ?_ ?_ e
    · intro e he hmem
      rw [chain_of_not_has he] at hmem
      cases hmem
    · intro e _ hchain _ hmem
      rw [hchain, List.mem_singleton] at hmem
      exact hmem ▸ .here e
    · intro e o ho _ hchain ih hmem
      rw [hchain, List.mem_cons] at hmem
      rcases hmem with rfl | hmem
      · exact .here t
      · exact .out id ho (ih hmem)
  · induction h with
    | here e => exact mem_chain_self he
    | @out e o t _ parent _ ih =>
      rw [chain_of_parent hs parent]
      exact List.mem_cons_of_mem e (ih (Nat.lt_trans (hs e o parent) he))

theorem Encloses.has (he : s.Has e) (h : s.Encloses t e) : s.Has t :=
  (has_of_mem_chain ((mem_chain_iff hs he).mpr h)).1

/-- A lookup finds what the walk meets first. -/
theorem findSome?_chain_eq_some (hg : ∀ f a, g f = some a → s.Has f) :
    (s.chain e).findSome? g = some a ↔ ∃ t, s.Meets (Shows g) e t ∧ g t = some a := by
  refine ⟨?_, ?_⟩
  · refine s.walk_induction (P := fun e => (s.chain e).findSome? g = some a →
      ∃ t, s.Meets (Shows g) e t ∧ g t = some a) ?_ ?_ ?_ e
    · intro e he h
      rw [chain_of_not_has he] at h
      cases h
    · intro e _ hchain _ h
      rw [hchain, List.findSome?_singleton] at h
      exact ⟨e, .here e, h⟩
    · intro e o ho _ hchain ih h
      rw [hchain, List.findSome?_cons] at h
      cases hge : g e with
      | some b =>
        rw [hge] at h
        exact ⟨e, .here e, hge.trans h⟩
      | none =>
        rw [hge] at h
        obtain ⟨t, hwalk, ht⟩ := ih h
        exact ⟨t, .out (not_shows_iff.mpr hge) ho hwalk, ht⟩
  · rintro ⟨t, hwalk, ht⟩
    induction hwalk with
    | here e =>
      obtain ⟨others, hchain⟩ := exists_chain_cons (hg e a ht)
      rw [hchain, List.findSome?_cons, ht]
    | @out e o t skips parent _ ih =>
      rw [chain_of_parent hs parent, List.findSome?_cons, not_shows_iff.mp skips]
      exact ih ht

/-- A lookup finds nothing where no frame around has anything to find. -/
theorem findSome?_chain_eq_none (he : s.Has e) :
    (s.chain e).findSome? g = none ↔ ∀ t, s.Encloses t e → ¬ Shows g t := by
  rw [List.findSome?_eq_none_iff]
  exact forall_congr' fun t => by rw [mem_chain_iff hs he, not_shows_iff]

/-- After a write to one frame, a walk that meets this frame before any other with something to look
up finds what was written. -/
theorem findSome?_chain_of_meets (hwrite : ∀ f, g' f = if f = t then some v else g f) (ht : s.Has t)
    (h : s.Meets (Shows g) e t) : (s.chain e).findSome? g' = some v := by
  induction h with
  | here e =>
    obtain ⟨others, hchain⟩ := exists_chain_cons ht
    rw [hchain, List.findSome?_cons, hwrite, if_pos rfl]
  | @out e o t skips parent _ ih =>
    rw [chain_of_parent hs parent, List.findSome?_cons, hwrite]
    -- whether `t` is met once more further out need not be known: what was written ends the lookup
    -- at `e` already
    by_cases het : e = t
    · rw [if_pos het]
    · rw [if_neg het, not_shows_iff.mp skips]
      exact ih hwrite ht

end

/-! ### Variables and blocks -/

theorem hasVariable_eq_isSome (s : Store) (e : Env) (x : Text) :
    s.hasVariable e x = (s.value? e x).isSome := by
  rw [hasVariable, definer?, value?, Bool.eq_iff_iff, List.find?_isSome, List.findSome?_isSome_iff]

theorem has_of_localValue? {x : Text} {v : Expression} (h : s.localValue? x f = some v) :
    s.Has f := by
  obtain ⟨frame, hframe, -⟩ := Option.bind_eq_some_iff.mp h
  exact has_of_frame hframe

theorem has_of_localBlock? {m : Text} {c : Closure} (h : s.localBlock? m f = some c) : s.Has f := by
  obtain ⟨frame, hframe, -⟩ := Option.bind_eq_some_iff.mp h
  exact has_of_frame hframe

/-- The nearest frame that has a variable is the one that a walk meets first. -/
theorem definer?_eq_some {x : Text} (hs : s.Ordered) :
    s.definer? e x = some t ↔
      s.Meets (Shows (s.localValue? x)) e t ∧ Shows (s.localValue? x) t := by
  let g := Option.guard fun f => (s.localValue? x f).isSome
  have hg : ∀ f a, g f = some a → s.Has f := fun f a h => by
    obtain ⟨v, hv⟩ := Option.isSome_iff_exists.mp (Option.guard_eq_some_iff.mp h).2
    exact has_of_localValue? hv
  have hshows : ∀ f, Shows g f ↔ Shows (s.localValue? x) f := fun f => by
    rw [Shows, Option.isSome_guard, Shows]
  rw [definer?, ← List.findSome?_guard, findSome?_chain_eq_some hs hg]
  refine ⟨?_, fun ⟨hwalk, ht⟩ => ⟨t, (meets_congr (fun _ => rfl) hshows).mpr hwalk, ?_⟩⟩
  · rintro ⟨f, hwalk, hf⟩
    obtain ⟨rfl, hdefines⟩ := Option.guard_eq_some_iff.mp hf
    exact ⟨(meets_congr (fun _ => rfl) hshows).mp hwalk, hdefines⟩
  · exact Option.guard_eq_some_iff.mpr ⟨rfl, ht⟩

/-! ### Writes -/

/-- A write changes one frame and no other. -/
theorem frame?_modifyFrame (s : Store) (t e : Env) (write : Frame → Frame) :
    (s.modifyFrame t write).frame? e = if e = t then (s.frame? e).map write else s.frame? e := by
  rw [frame?, modifyFrame, Array.getElem?_modify, frame?]
  by_cases h : e = t
  · rw [if_pos (congrArg Env.index h.symm), if_pos h]
  · rw [if_neg fun hindex => h (Env.ext hindex.symm), if_neg h]

@[simp] theorem has_modifyFrame {write : Frame → Frame} :
    (s.modifyFrame t write).Has e ↔ s.Has e := by
  rw [Has, modifyFrame, Array.size_modify, Has]

/-- What a change of frames keeps is read as before. -/
theorem read_modifyFrame {α : Type} {read : Frame → Option α} {write : Frame → Frame}
    (hkeeps : ∀ frame, read (write frame) = read frame) :
    ((s.modifyFrame t write).frame? e).bind read = (s.frame? e).bind read := by
  rw [frame?_modifyFrame]
  split
  · cases s.frame? e with
    | none => rfl
    | some frame => exact hkeeps frame
  · rfl

/-- What is put into a table of one frame is read there under its name, and everything else as
before. -/
theorem lookup_modifyFrame {α : Type} {table : Frame → Table α} {write : Frame → Frame}
    {name : Text} {a : α} (hinsert : ∀ frame, table (write frame) = (table frame).insert name a)
    (ht : s.Has t) (y : Text) :
    (((s.modifyFrame t write).frame? f).bind fun frame => (table frame).get? y) =
      if f = t ∧ y = name then some a else (s.frame? f).bind fun frame => (table frame).get? y := by
  rw [frame?_modifyFrame]
  by_cases hf : f = t
  · obtain ⟨frame, hframe⟩ := ht.exists_frame
    rw [if_pos hf, hf, hframe, Option.map_some, Option.bind_some, Option.bind_some, hinsert,
      Table.get?_insert]
    simp only [true_and]
  · rw [if_neg hf, if_neg fun h => hf h.1]

theorem parent?_modifyFrame {write : Frame → Frame}
    (hwrite : ∀ frame, (write frame).parent = frame.parent) :
    (s.modifyFrame t write).parent? e = s.parent? e :=
  read_modifyFrame hwrite

theorem extends_modifyFrame {write : Frame → Frame}
    (hwrite : ∀ frame, (write frame).parent = frame.parent) : s.Extends (s.modifyFrame t write) :=
  ⟨fun _ => has_modifyFrame.mpr, fun _ _ => parent?_modifyFrame hwrite⟩

/-- A write that keeps the frame around a frame keeps all chains. -/
theorem chain_modifyFrame {write : Frame → Frame}
    (hwrite : ∀ frame, (write frame).parent = frame.parent) :
    (s.modifyFrame t write).chain e = s.chain e := by
  by_cases he : s.Has e
  · exact (extends_modifyFrame hwrite).chain_eq he
  · rw [chain_of_not_has he, chain_of_not_has (mt has_modifyFrame.mp he)]

section
variable {x y m z : Text} {v : Expression} {c : Closure}

@[simp] theorem has_setLocal : (s.setLocal t x v).Has e ↔ s.Has e :=
  has_modifyFrame

@[simp] theorem parent?_setLocal : (s.setLocal t x v).parent? e = s.parent? e :=
  parent?_modifyFrame fun _ => rfl

@[simp] theorem chain_setLocal : (s.setLocal t x v).chain e = s.chain e :=
  chain_modifyFrame fun _ => rfl

@[simp] theorem localBlock?_setLocal : (s.setLocal t x v).localBlock? m e = s.localBlock? m e :=
  read_modifyFrame fun _ => rfl

/-- An assignment in one frame. -/
theorem localValue?_setLocal (ht : s.Has t) :
    (s.setLocal t x v).localValue? y f = if f = t ∧ y = x then some v else s.localValue? y f :=
  lookup_modifyFrame (fun _ => rfl) ht y

@[simp] theorem has_bind : (s.bind t z c).Has e ↔ s.Has e :=
  has_modifyFrame

@[simp] theorem parent?_bind : (s.bind t z c).parent? e = s.parent? e :=
  parent?_modifyFrame fun _ => rfl

@[simp] theorem chain_bind : (s.bind t z c).chain e = s.chain e :=
  chain_modifyFrame fun _ => rfl

@[simp] theorem localValue?_bind : (s.bind t z c).localValue? x e = s.localValue? x e :=
  read_modifyFrame fun _ => rfl

/-- The binding of a block in one frame. -/
theorem localBlock?_bind (ht : s.Has t) :
    (s.bind t z c).localBlock? m f = if f = t ∧ m = z then some c else s.localBlock? m f :=
  lookup_modifyFrame (fun _ => rfl) ht m

end

/-! ### New frames -/

theorem has_allocate {parent : Option Env} :
    (s.allocate parent).2.Has e ↔ s.Has e ∨ e = (s.allocate parent).1 := by
  rw [Has, allocate, Array.size_push, Nat.lt_succ_iff_lt_or_eq]
  exact or_congr Iff.rfl ⟨fun h => Env.ext h, fun h => congrArg Env.index h⟩

theorem frame?_allocate_of_has {parent : Option Env} (he : s.Has e) :
    (s.allocate parent).2.frame? e = s.frame? e :=
  Array.getElem?_push_lt he |>.trans (Array.getElem?_eq_getElem he).symm

theorem frame?_allocate_new {parent : Option Env} :
    (s.allocate parent).2.frame? (s.allocate parent).1 = some { parent } :=
  Array.getElem?_push_size

/-- A new frame is none of those that were there. -/
theorem not_has_allocate {parent : Option Env} : ¬ s.Has (s.allocate parent).1 :=
  Nat.lt_irrefl _

theorem parent?_allocate_new {parent : Option Env} :
    (s.allocate parent).2.parent? (s.allocate parent).1 = parent :=
  parent?_of_frame frame?_allocate_new

theorem parent?_allocate_of_has {parent : Option Env} (he : s.Has e) :
    (s.allocate parent).2.parent? e = s.parent? e := by
  rw [parent?, frame?_allocate_of_has he, parent?]

theorem extends_allocate (s : Store) (parent : Option Env) : s.Extends (s.allocate parent).2 :=
  ⟨fun _ hf => has_allocate.mpr (.inl hf), fun _ hf => parent?_allocate_of_has hf⟩

/-- The walk from a new frame goes on at the frame around it. -/
theorem chain_newChild (he : s.Has e) :
    (s.newChild e).2.chain (s.newChild e).1 = (s.newChild e).1 :: s.chain e := by
  have hparent : (s.newChild e).2.parent? (s.newChild e).1 = some e := parent?_allocate_new
  have hextends : s.Extends (s.newChild e).2 := s.extends_allocate (some e)
  rw [chain_of_lt hparent he, hextends.chain_eq he]

/-! ### The order of the frames -/

theorem Ordered.of_parent (hs : s.Ordered) (h : ∀ f, s'.parent? f = s.parent? f) : s'.Ordered :=
  fun e o ho => hs e o ((h e).symm.trans ho)

/-- A new frame inside one that exists is newer than that one. -/
theorem Ordered.allocate {parent : Option Env} (hs : s.Ordered)
    (hparent : ∀ o, parent = some o → s.Has o) : (s.allocate parent).2.Ordered := by
  intro e o ho
  rcases has_allocate.mp (has_of_parent ho) with he | rfl
  · exact hs e o ((parent?_allocate_of_has he).symm.trans ho)
  · exact hparent o (parent?_allocate_new.symm.trans ho)

theorem ordered_empty : Ordered {} := fun e _ h =>
  absurd (has_of_parent h) (Nat.not_lt_zero e.index)

end Store
end Stylesheet
