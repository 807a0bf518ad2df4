import Stylesheet.Proofs.Coverage
import Stylesheet.Proofs.Collecting
import Stylesheet.Proofs.Expressions

/-!
# Documents in the order of their text

A document is built in the order of its text.  The lines of a node, of its expressions with their
tokens, of the nodes below it and of the branches behind it never go back (`Rising`), and every node
stands where its kind may stand (`Node.Stands`): the root only at the top, a branch without a
condition only at the end of a chain.

`Climbs` says so of a production by the line it starts on and the line it ends on.  It is passed on
by the ways to put productions together.  Going back to a place goes back to its line, so what was
read since then must not be part of the answer.
-/
namespace Stylesheet

/-! ### Lines that never go back -/

/-- Lines between two others, none of them before an earlier one. -/
structure Rising (first : Nat) (ls : List Nat) (last : Nat) : Prop where
  sorted : ls.Pairwise (· ≤ ·)
  low : ∀ l ∈ ls, first ≤ l
  high : ∀ l ∈ ls, l ≤ last
  le : first ≤ last

namespace Rising

variable {first mid last : Nat} {ls ms : List Nat}

theorem nil (h : first ≤ last) : Rising first [] last :=
  ⟨.nil, nofun, nofun, h⟩

theorem mono (h : Rising first ls mid) (hle : mid ≤ last) : Rising first ls last :=
  ⟨h.sorted, h.low, fun l hl => Nat.le_trans (h.high l hl) hle, Nat.le_trans h.le hle⟩

theorem lower (h : Rising mid ls last) (hle : first ≤ mid) : Rising first ls last :=
  ⟨h.sorted, fun l hl => Nat.le_trans hle (h.low l hl), h.high, Nat.le_trans hle h.le⟩

/-- Lines that start where others end may be put behind them. -/
theorem append (h : Rising first ls mid) (h' : Rising mid ms last) :
    Rising first (ls ++ ms) last where
  sorted := List.pairwise_append.mpr
    ⟨h.sorted, h'.sorted, fun l hl m hm => Nat.le_trans (h.high l hl) (h'.low m hm)⟩
  low l hl := (List.mem_append.mp hl).elim (h.low l) fun hl => Nat.le_trans h.le (h'.low l hl)
  high l hl := (List.mem_append.mp hl).elim (fun hl => Nat.le_trans (h.high l hl) h'.le) (h'.high l)
  le := Nat.le_trans h.le h'.le

theorem singleton {l : Nat} (hfirst : first ≤ l) (hlast : l ≤ last) : Rising first [l] last where
  sorted := List.pairwise_singleton _ l
  low _ hl := by rwa [List.mem_singleton.mp hl]
  high _ hl := by rwa [List.mem_singleton.mp hl]
  le := Nat.le_trans hfirst hlast

theorem cons {l : Nat} (hle : first ≤ l) (h : Rising l ls last) : Rising first (l :: ls) last :=
  (singleton hle (Nat.le_refl l)).append h

end Rising

/-! ### The lines of a document -/

/-- The lines of an expression and of its tokens. -/
def Expression.lines (e : Expression) : List Nat :=
  e.line :: e.tokens.map Token.line

mutual

/-- The lines of a node in the order of its text: its own, those of its expressions, of the nodes
below it and of the branches behind it. -/
def Node.lines : Node → List Nat
  | ⟨kind, line, children⟩ =>
    line ::
      (kind.ownExpressions.flatMap Expression.lines ++ (Node.linesOf children ++ kind.linesBehind))

/-- The lines of the branches behind a branch. -/
def NodeKind.linesBehind : NodeKind → List Nat
  | .branch _ (some otherwise) => otherwise.lines
  | _ => []

/-- The lines of some nodes. -/
def Node.linesOf : List Node → List Nat
  | [] => []
  | n :: ns => n.lines ++ Node.linesOf ns

end

theorem Node.linesOf_append (ns ms : List Node) :
    Node.linesOf (ns ++ ms) = Node.linesOf ns ++ Node.linesOf ms := by
  induction ns with
  | nil => rfl
  | cons n ns ih => rw [List.cons_append, Node.linesOf, Node.linesOf, ih, List.append_assoc]

theorem Node.linesOf_singleton (n : Node) : Node.linesOf [n] = n.lines := by
  rw [Node.linesOf, Node.linesOf, List.append_nil]

/-! ### Where nodes may stand -/

/-- Whether nodes of this kind never have nodes below them. -/
def NodeKind.childless : NodeKind → Bool
  | .assignment .. | .inclusion .. | .comment .. | .debug _ | .warn _ => true
  | _ => false

mutual

/-- A node that may stand in a list of statements, with nodes below it that may too. -/
def Node.Stands : Node → Prop
  | ⟨kind, _, children⟩ =>
    kind.Stands ∧ (kind.childless = true → children = []) ∧ Node.AllStand children

/-- A kind of node that may stand in a list of statements. A branch there has a condition. -/
def NodeKind.Stands : NodeKind → Prop
  | .root => False
  | .branch none _ => False
  | .branch (some _) (some otherwise) => otherwise.StandsBehind
  | _ => True

/-- A node that may stand behind a branch: a branch, and one without a condition has none behind
it. -/
def Node.StandsBehind : Node → Prop
  | ⟨.branch _ none, _, children⟩ => Node.AllStand children
  | ⟨.branch (some _) (some otherwise), _, children⟩ =>
    otherwise.StandsBehind ∧ Node.AllStand children
  | _ => False

/-- Nodes that may stand in a list of statements. -/
def Node.AllStand : List Node → Prop
  | [] => True
  | n :: ns => n.Stands ∧ Node.AllStand ns

end

theorem Node.allStand_append {ns ms : List Node} (h : Node.AllStand ns) (h' : Node.AllStand ms) :
    Node.AllStand (ns ++ ms) := by
  induction ns with
  | nil => exact h'
  | cons n ns ih =>
    rw [Node.AllStand] at h
    rw [List.cons_append, Node.AllStand]
    exact ⟨h.1, ih h.2⟩

theorem Node.allStand_singleton {n : Node} (h : n.Stands) : Node.AllStand [n] := by
  rw [Node.AllStand, Node.AllStand]
  exact ⟨h, trivial⟩

/-! ### The lines of tokens -/

open Lexer in
/-- Tokens are consumed in the order of their lines. -/
theorem Lexer.Consumes.rising {l m : Lexer} {ts : List Token} (h : Consumes l ts m)
    (hfresh : l.lookahead = none) : Rising l.cursor.line (ts.map Token.line) m.cursor.line := by
  induction h with
  | nil l => exact .nil (Nat.le_refl _)
  | @cons l m n t ts first others ih =>
    obtain ⟨ahead, k, hread, rfl, rfl⟩ := exists_of_next hfresh first
    obtain ⟨-, hstart, htoken⟩ := (Rules.ends_read interpolation l).of_ok hread
    have hline : ahead.token.line = l.tokenStart.line :=
      congrArg Location.line (location_of_next hfresh first)
    have hend : ahead.token.line ≤ (k.consume ahead).cursor.line := by
      rw [hline, ← hstart, cursor_consume]
      exact htoken.before.line_le
    have hrest := ih (fresh_of_next first)
    exact .cons (hline ▸ (before_tokenStart l).line_le) (hrest.lower hend)

namespace Grammar

variable {ε α β : Type} {c : Cursor} {first : Nat}

/-! ### Productions by their lines -/

/-- A production that starts ahead of a place, on a line or further down, ends ahead of the place,
and its answer is as said for the line it ends on. -/
def Climbs (c : Cursor) (first : Nat) (good : α → Nat → Prop) (p : EStateM ε State α) : Prop :=
  ∀ s, c.Before s.cursor → first ≤ s.cursor.line →
    Ends p s (fun a t => c.Before t.cursor ∧ good a t.cursor.line) (fun _ _ => True)

section
variable {good : α → Nat → Prop} {good' : β → Nat → Prop}

theorem climbs_pure {a : α} (h : ∀ last, first ≤ last → good a last) :
    Climbs c first good (pure a : EStateM ε State α) :=
  fun _ hs hline => ⟨hs, h _ hline⟩

theorem climbs_throw (e : ε) : Climbs c first good (throw e : EStateM ε State α) :=
  fun _ _ _ => trivial

theorem climbs_fail (expected : String) : Climbs c first good (fail expected : Production α) :=
  fun _ _ _ => trivial

/-- What follows starts on the line where the first production ends. -/
theorem climbs_bind {p : EStateM ε State α} {f : α → EStateM ε State β} (hp : Climbs c first good p)
    (hf : ∀ a mid, good a mid → Climbs c mid good' (f a)) : Climbs c first good' (p >>= f) := by
  intro s hs hline
  refine ends_bind.mpr ((hp s hs hline).mono ?_ fun _ _ h => h)
  rintro a t ⟨ht, ha⟩
  exact hf a _ ha t ht (Nat.le_refl _)

/-- A production that only moves forward does not go back to an earlier line. -/
theorem climbs_of_plain {p : EStateM ε State α} (h : ∀ d, Plain d p) :
    Climbs c first (fun _ last => first ≤ last) p := by
  intro s hs hline
  refine (h s.cursor s (.refl _)).mono (fun a t ht => ?_) fun _ _ _ => trivial
  exact ⟨hs.trans ht.1.ahead, Nat.le_trans hline ht.1.ahead.line_le⟩

/-- What may start on a line may start further down. -/
theorem Climbs.lower {p : EStateM ε State α} (h : Climbs c first good p) {line : Nat}
    (hle : first ≤ line) : Climbs c line good p :=
  fun s hs hline => h s hs (Nat.le_trans hle hline)

theorem Climbs.mono {p : EStateM ε State α} {good' : α → Nat → Prop} (h : Climbs c first good p)
    (hgood : ∀ a last, good a last → good' a last) : Climbs c first good' p :=
  fun s hs hline => (h s hs hline).mono (fun a _ ht => ⟨ht.1, hgood a _ ht.2⟩) fun _ _ _ => trivial

/-- A production whose answer has no lines in it may come first. -/
theorem climbs_after {p : EStateM ε State β} {f : β → EStateM ε State α} (hp : ∀ d, Plain d p)
    (hf : ∀ b, Climbs c first good (f b)) : Climbs c first good (p >>= f) :=
  climbs_bind (climbs_of_plain hp) fun b _ hle => (hf b).lower hle

theorem climbs_map {f : α → β} {p : EStateM ε State α} (h : Climbs c first good p)
    (hf : ∀ a last, good a last → good' (f a) last) : Climbs c first good' (f <$> p) := by
  intro s hs hline
  refine ends_bind.mpr ((h s hs hline).mono ?_ fun _ _ h => h)
  rintro a t ⟨ht, ha⟩
  exact ⟨ht, hf a _ ha⟩

/-- What follows knows the line on which it starts. -/
theorem climbs_here_bind {f : Cursor → Production α}
    (h : ∀ d, c.Before d → first ≤ d.line → Climbs c d.line good (f d)) :
    Climbs c first good (here >>= f) :=
  fun s hs hline => h s.cursor hs hline s hs (Nat.le_refl _)

theorem climbs_get_bind {f : State → Production α} (h : ∀ t, Climbs c first good (f t)) :
    Climbs c first good (get >>= f) :=
  fun s hs hline => h s s hs hline

/-- Going back to a place goes back to its line. -/
theorem climbs_moveTo_bind {d : Cursor} {f : Unit → Production α} (hd : c.Before d)
    (hf : Climbs c d.line good (f ())) : Climbs c first good (moveTo d >>= f) :=
  fun s _ _ => hf { s with cursor := d } hd (Nat.le_refl _)

theorem climbs_ite {P : Prop} [Decidable P] {p q : EStateM ε State α} (hp : Climbs c first good p)
    (hq : Climbs c first good q) : Climbs c first good (if P then p else q) := by
  split
  · exact hp
  · exact hq

theorem climbs_check {P : Prop} [Decidable P] {f : Unit → Production α} (expected : String)
    (h : Climbs c first good (f ())) :
    Climbs c first good (if P then f () else fail expected >>= f) :=
  climbs_ite h fun _ _ _ => trivial

/-- A loop finds what its rounds find. What was found so far is kept in one form as long as the loop
goes on, and in another behind its last round. -/
theorem climbs_unfold (going : List α → Nat → Prop) {good : List α → Nat → Prop}
    {step : β → EStateM ε State (List α × Option β)} (hnil : ∀ last, first ≤ last → going [] last)
    (hgood : ∀ found last, going found last → good found last)
    (h : ∀ found mid, going found mid → ∀ b, Climbs c mid (fun r last => match r.2 with
      | none => good (found ++ r.1) last
      | some _ => going (found ++ r.1) last) (step b)) (b : β) :
    Climbs c first good (unfold State.size step b) := by
  intro s hs hline
  refine Ends.unfold (fun found _ t => c.Before t.cursor ∧ going found t.cursor.line) ?_
    ⟨hs, hnil _ hline⟩
  rintro found b t ⟨ht, hfound⟩
  refine (h found _ hfound b t ht (Nat.le_refl _)).mono ?_ fun _ _ h => h
  rintro ⟨now, next⟩ u ⟨hu, hnow⟩
  cases next with
  | none => exact ⟨hu, hnow⟩
  | some b' =>
    simp only
    split
    · exact ⟨hu, hnow⟩
    · exact ⟨hu, hgood _ _ hnow⟩

/-- A rule that uses itself climbs if it does so whenever what it uses does. -/
theorem climbs_recurse {stuck : EStateM ε State α} {rule : EStateM ε State α → EStateM ε State α}
    {good : Nat → α → Nat → Prop} (hlower : ∀ {n m a last}, n ≤ m → good m a last → good n a last)
    (hstuck : ∀ n, Climbs c n (good n) stuck)
    (hrule : ∀ p, (∀ n, Climbs c n (good n) p) → ∀ n, Climbs c n (good n) (rule p)) :
    Climbs c first (good first) (recurse State.size stuck rule) := by
  intro s hs hline
  -- Wherever the rule is used, it is used from the line it starts on.
  have hself : Ends (recurse State.size stuck rule) s
      (fun a t => c.Before t.cursor ∧ good s.cursor.line a t.cursor.line) (fun _ _ => True) := by
    refine Ends.recurse (fun t => c.Before t.cursor)
      (fun t ht => hstuck _ t ht (Nat.le_refl _)) (fun p hp t ht => ?_) hs
    refine hrule p (fun n u hu hle => ?_) _ t ht (Nat.le_refl _)
    exact (hp u hu).mono (fun a v hv => ⟨hv.1, hlower hle hv.2⟩) fun _ _ h => h
  exact hself.mono (fun a t ht => ⟨ht.1, hlower hline ht.2⟩) fun _ _ h => h

theorem climbs_during {p : Production α} (committed : Bool) (h : Climbs c first good p) :
    Climbs c first good (during committed p) := by
  intro s hs hline
  have hrun := h s hs hline
  unfold Ends at hrun ⊢
  unfold during
  cases hresult : p s with
  | error e t => trivial
  | ok a t =>
    rw [hresult] at hrun
    exact hrun

end
/-! ### Expressions -/

/-- Expressions whose lines rise. -/
abbrev RisingExpressions (first : Nat) (es : List Expression) (last : Nat) : Prop :=
  Rising first (es.flatMap Expression.lines) last

/-- The lines of an expression as the only one. -/
theorem rising_one {e : Expression} {last : Nat} (h : Rising first e.lines last) :
    RisingExpressions first [e] last := by
  rwa [RisingExpressions, List.flatMap_singleton]

/-- An expression is on the line it starts on, and its tokens follow in the order in which they were
consumed. -/
theorem climbs_expression (stop : Stop) :
    Climbs c first (fun e last => Rising first e.lines last) (expression stop) := by
  intro s hs hline
  have hahead : Ends (expression stop) s (fun _ t => c.Before t.cursor) (fun _ _ => True) :=
    (plain_expression stop s hs).mono (fun _ _ ht => ht.1.ahead) fun _ _ _ => trivial
  refine hahead.and_of_ok fun e t h => ?_
  obtain ⟨l, hlexer, -, hstart, hend⟩ := written_of_expression h
  obtain ⟨n, b, hconsumes, -, -, hl⟩ := (Lexer.ends_collectUntil_consumes rfl _ _).of_ok hlexer
  have hrising := hconsumes.rising rfl
  have hfront : t.cursor = n.tokenStart := by
    rw [hend, hl]
    exact Lexer.front_of_lookahead (hconsumes.fresh rfl)
  have hplace : first ≤ e.line := by
    rw [hstart]
    exact Nat.le_trans hline ((Cursor.Before.refl s.cursor).skip _).line_le
  refine .cons hplace (Rising.mono ?_ (hfront ▸ (Lexer.before_tokenStart n).line_le))
  rw [hstart]
  exact hrising

theorem climbs_some_expression (stop : Stop) :
    Climbs c first (fun v last => RisingExpressions first v.toList last)
      (some <$> expression stop) := by
  exact climbs_map (climbs_expression stop) fun e last he => rising_one he

/-! ### Nodes -/

/-- A node whose lines rise, and that may stand in a list of statements. -/
abbrev Orderly (first : Nat) (n : Node) (last : Nat) : Prop :=
  Rising first n.lines last ∧ n.Stands

/-- Nodes whose lines rise, and that may stand in a list of statements. -/
abbrev OrderlyNodes (first : Nat) (ns : List Node) (last : Nat) : Prop :=
  Rising first (Node.linesOf ns) last ∧ Node.AllStand ns

section
variable {line mid last : Nat} {ns ms : List Node}

theorem OrderlyNodes.nil (h : first ≤ last) : OrderlyNodes first [] last :=
  ⟨.nil h, trivial⟩

theorem OrderlyNodes.mono (h : OrderlyNodes first ns mid) (hle : mid ≤ last) :
    OrderlyNodes first ns last :=
  ⟨h.1.mono hle, h.2⟩

/-- Statements that were read behind others may be put behind them. -/
theorem OrderlyNodes.append (h : OrderlyNodes first ns mid) (h' : OrderlyNodes mid ms last) :
    OrderlyNodes first (ns ++ ms) last :=
  ⟨Node.linesOf_append ns ms ▸ h.1.append h'.1, Node.allStand_append h.2 h'.2⟩

theorem Orderly.lower {n : Node} (h : Orderly line n last) (hle : first ≤ line) :
    Orderly first n last :=
  ⟨h.1.lower hle, h.2⟩

theorem Orderly.singleton {n : Node} (h : Orderly first n last) : OrderlyNodes first [n] last :=
  ⟨(Node.linesOf_singleton n).symm ▸ h.1, Node.allStand_singleton h.2⟩

/-- The lines of a node that is read from its first line on, first its expressions, then its
children. -/
theorem rising_node {kind : NodeKind} (hfirst : first ≤ line) (hbehind : kind.linesBehind = [])
    (hexpressions : RisingExpressions line kind.ownExpressions mid)
    (hns : Rising mid (Node.linesOf ns) last) :
    Rising first (⟨kind, line, ns⟩ : Node).lines last := by
  rw [Node.lines, hbehind, List.append_nil]
  exact .cons hfirst (hexpressions.append hns)

/-- A node with others below it stands if its kind may stand and have such nodes. -/
theorem orderly_node (kind : NodeKind) (hfirst : first ≤ line) (hbehind : kind.linesBehind = [])
    (hstands : kind.Stands) (hchildless : kind.childless = false)
    (hexpressions : RisingExpressions line kind.ownExpressions mid)
    (hns : OrderlyNodes mid ns last) : Orderly first ⟨kind, line, ns⟩ last := by
  refine ⟨rising_node hfirst hbehind hexpressions hns.1, ?_⟩
  rw [Node.Stands]
  exact ⟨hstands, fun hchild => Bool.noConfusion (hchildless.symm.trans hchild), hns.2⟩

/-- A node with none below it stands if its kind may stand. -/
theorem orderly_leaf (kind : NodeKind) (hfirst : first ≤ line) (hbehind : kind.linesBehind = [])
    (hstands : kind.Stands) (hexpressions : RisingExpressions line kind.ownExpressions last) :
    Orderly first (.leaf kind line) last := by
  refine ⟨rising_node hfirst hbehind hexpressions (.nil (Nat.le_refl _)), ?_⟩
  rw [Node.leaf, Node.Stands]
  exact ⟨hstands, fun _ => rfl, trivial⟩

end

/-! ### Statements without blocks -/

theorem climbs_comment :
    Climbs c first (fun n last => OrderlyNodes first n.toList last) comment := by
  have hcomment : ∀ (text : Text) (silent : Bool) (line : Nat), first ≤ line →
      Climbs c line (fun n last => OrderlyNodes first n.toList last)
        (pure (some (.leaf (.comment text silent) line)) : Production (Option Node)) :=
    fun text silent line hfirst => climbs_pure fun last hlast =>
      (orderly_leaf (.comment text silent) hfirst rfl trivial (.nil hlast)).singleton
  refine climbs_here_bind fun d _ hfirst => climbs_after (fun _ => plain_take? _) fun text => ?_
  cases text with
  | some text => exact hcomment text false d.line hfirst
  | none =>
    refine climbs_after (fun _ => plain_take? _) fun text => ?_
    cases text with
    | some text => exact hcomment text true d.line hfirst
    | none => exact climbs_pure fun last hlast => .nil (Nat.le_trans hfirst hlast)

theorem climbs_assignment : Climbs c first (Orderly first) assignment := by
  refine climbs_here_bind fun d _ hfirst =>
    climbs_after (fun _ => plain_variableName) fun name => ?_
  refine climbs_after (fun _ => plain_skipTrivia) fun _ =>
    climbs_after (fun _ => plain_expect _) fun _ => ?_
  refine climbs_bind (climbs_expression _) fun value mid hvalue => ?_
  refine climbs_after (fun _ => plain_flag _) fun guarded => climbs_pure fun last hlast => ?_
  exact orderly_leaf (.assignment name value guarded) hfirst rfl trivial
    (rising_one (hvalue.mono hlast))

namespace Directive

/-- The lines of a list are those of its items, which were read one behind the other. -/
theorem climbs_list {lines : α → List Nat} {p : Production α}
    (h : ∀ n, Climbs c n (fun a last => Rising n (lines a) last) p) :
    Climbs c first (fun as last => Rising first (as.flatMap lines) last) (list p) := by
  have hitem : ∀ n, Climbs c n (fun r last => Rising n (r.1.flatMap lines) last) (item p) := by
    refine fun n => climbs_bind (h n) fun a mid ha =>
      climbs_after (fun _ => plain_skipTrivia) fun _ => ?_
    have hone : ∀ last, mid ≤ last → Rising n ([a].flatMap lines) last := by
      intro last hlast
      rw [List.flatMap_singleton]
      exact ha.mono hlast
    refine climbs_after (fun _ => plain_passes _) fun _ => climbs_ite (climbs_pure hone) ?_
    exact climbs_after (fun _ => plain_expect _) fun _ => climbs_pure hone
  refine climbs_after (fun _ => plain_expect _) fun _ =>
    climbs_after (fun _ => plain_skipTrivia) fun _ => ?_
  refine climbs_after (fun _ => plain_passes _) fun _ => climbs_ite (climbs_pure fun _ => .nil) ?_
  refine climbs_unfold (fun as last => Rising first (as.flatMap lines) last) (fun _ => .nil)
    (fun _ _ h => h) (fun found mid hfound b => ?_) ()
  intro s hs hline
  refine (hitem mid s hs hline).mono ?_ fun _ _ h => h
  rintro ⟨now, next⟩ t ⟨ht, hnow⟩
  have hboth : Rising first ((found ++ now).flatMap lines) t.cursor.line := by
    rw [List.flatMap_append]
    exact hfound.append hnow
  cases next <;> exact ⟨ht, hboth⟩

/-- The lines of the default value of a parameter. -/
def linesOfParameter (p : Parameter) : List Nat :=
  p.default.toList.flatMap Expression.lines

/-- Only parameters with a default value have lines. -/
theorem flatMap_linesOfParameter (ps : List Parameter) :
    ps.flatMap linesOfParameter = (ps.filterMap (·.default)).flatMap Expression.lines := by
  induction ps with
  | nil => rfl
  | cons p ps ih =>
    rw [List.flatMap_cons, ih, linesOfParameter]
    cases hdefault : p.default with
    | none => rw [List.filterMap_cons_none hdefault]; rfl
    | some e => rw [List.filterMap_cons_some hdefault, List.flatMap_cons]; simp

theorem climbs_parameter :
    Climbs c first (fun p last => Rising first (linesOfParameter p) last) parameter := by
  refine climbs_after (fun _ => plain_skipTrivia) fun _ =>
    climbs_after (fun _ => plain_variableName) ?_
  refine fun name => climbs_after (fun _ => plain_skipTrivia) fun _ => ?_
  refine climbs_after (fun _ => plain_passes _) fun _ => climbs_ite ?_ (climbs_pure fun _ => .nil)
  refine climbs_bind (climbs_expression _) fun value mid hvalue => climbs_pure fun last hlast => ?_
  rw [linesOfParameter, Option.toList_some, List.flatMap_singleton]
  exact hvalue.mono hlast

/-- An inclusion is on an earlier line, the one of its sign. It has the lines of its arguments. -/
theorem climbs_inclusion {line : Nat} (hline : line ≤ first) :
    Climbs c first (Orderly line) (inclusion line) := by
  refine climbs_after (fun _ => plain_skipTrivia) fun _ =>
    climbs_after (fun _ => plain_identifier) ?_
  refine fun name => climbs_here_bind fun behind hbehind hfirst => ?_
  refine climbs_after (fun _ => plain_skipTrivia) fun _ =>
    climbs_after (fun _ => plain_sees _) fun _ => ?_
  refine climbs_ite ?_ ?_
  · refine climbs_bind (climbs_list fun _ => climbs_expression _) fun es mid hes => ?_
    refine climbs_pure fun last hlast =>
      orderly_leaf (.inclusion name es) (Nat.le_refl _) rfl trivial ?_
    exact (hes.mono hlast).lower (Nat.le_trans hline hfirst)
  · refine climbs_moveTo_bind hbehind (climbs_pure fun last hlast => ?_)
    exact orderly_leaf (.inclusion name []) (Nat.le_refl _) rfl trivial
      (.nil (Nat.le_trans hline (Nat.le_trans hfirst hlast)))

end Directive

/-! ### Branches -/

namespace Directive

/-- The lines of a branch without what follows it. -/
def Alternative.lines (a : Alternative) : List Nat :=
  a.line :: (a.condition.toList.flatMap Expression.lines ++ Node.linesOf a.children)

/-- Branches that may follow one another: one without a condition is the last of them. -/
def Linked : List Alternative → Prop
  | [] => True
  | a :: as => (a.condition = none → as = []) ∧ Node.AllStand a.children ∧ Linked as

/-- Branches that all have a condition may be followed by others. -/
theorem linked_append {as bs : List Alternative} (h : Linked as) (hbs : Linked bs)
    (hconditions : ∀ a ∈ as, a.condition ≠ none) : Linked (as ++ bs) := by
  induction as with
  | nil => exact hbs
  | cons a as ih =>
    refine ⟨fun hnone => absurd hnone (hconditions a List.mem_cons_self), h.2.1, ?_⟩
    exact ih h.2.2 fun a ha => hconditions a (List.mem_cons_of_mem _ ha)

theorem chain_cons (a : Alternative) (as : List Alternative) :
    chain (a :: as) = some ⟨.branch a.condition (chain as), a.line, a.children⟩ := rfl

theorem linesBehind_branch (condition : Option Expression) (otherwise : Option Node) :
    (NodeKind.branch condition otherwise).linesBehind = otherwise.elim [] Node.lines := by
  cases otherwise <;> rfl

/-- The lines of a chain are those of its branches. -/
theorem linesBehind_chain (condition : Option Expression) (as : List Alternative) :
    (NodeKind.branch condition (chain as)).linesBehind = as.flatMap Alternative.lines := by
  rw [linesBehind_branch]
  induction as with
  | nil => rfl
  | cons a as ih =>
    rw [chain_cons, Option.elim_some, Node.lines, linesBehind_branch, ih, List.flatMap_cons,
      Alternative.lines]
    simp only [List.cons_append, List.append_assoc]
    rfl

/-- Linked branches may stand behind a branch. -/
theorem stands_chain (condition : Expression) {as : List Alternative} (h : Linked as) :
    (NodeKind.branch (some condition) (chain as)).Stands := by
  have hbehind : ∀ as, Linked as → ∀ n, chain as = some n → n.StandsBehind := by
    intro as h
    induction as with
    | nil => nofun
    | cons a as ih =>
      obtain ⟨hlast, hchildren, has⟩ := h
      rintro n hn
      rw [chain_cons, Option.some.injEq] at hn
      subst hn
      cases hrest : chain as with
      | none => rwa [Node.StandsBehind]
      | some o =>
        cases hcondition : a.condition with
        | none =>
          rw [hlast hcondition] at hrest
          cases hrest
        | some e =>
          rw [Node.StandsBehind]
          exact ⟨ih has o hrest, hchildren⟩
  cases hchain : chain as with
  | none => trivial
  | some n =>
    rw [NodeKind.Stands]
    exact hbehind as h n hchain

end Directive

/-! ### Statements with blocks -/

section
variable {block : Production (List Node)} (hblock : ∀ n, Climbs c n (OrderlyNodes n) block)
  {line : Nat} (hline : line ≤ first)
include hblock

namespace Directive

include hline in
/-- The default values of the parameters come before the block. -/
theorem climbs_definition : Climbs c first (Orderly line) (definition block line) := by
  refine climbs_after (fun _ => plain_skipTrivia) fun _ =>
    climbs_after (fun _ => plain_identifier) ?_
  refine fun name => climbs_after (fun _ => plain_skipTrivia) fun _ => ?_
  have hrest : ∀ (parameters : List Parameter) (mid : Nat),
      Rising first (parameters.flatMap linesOfParameter) mid → Climbs c mid (Orderly line) (do
        let _ ← skipTrivia
        return ⟨.definition ⟨name, parameters⟩, line, ← block⟩) := by
    intro parameters mid hparameters
    refine climbs_bind (climbs_of_plain fun _ => plain_skipTrivia) fun _ low hlow => ?_
    refine climbs_bind (hblock low) fun ns mid' hns => climbs_pure fun last hlast => ?_
    rw [flatMap_linesOfParameter] at hparameters
    refine orderly_node (.definition ⟨name, parameters⟩) (Nat.le_refl _) rfl trivial rfl
      ((hparameters.mono hlow).lower hline) (hns.mono hlast)
  refine climbs_after (fun _ => plain_sees _) fun _ => climbs_ite ?_ ?_
  · exact climbs_bind (climbs_list fun _ => climbs_parameter) hrest
  · exact climbs_bind (climbs_pure fun _ => .nil) hrest

/-- One round of a chain finds one branch or none. It goes on only behind a branch with a condition.
-/
theorem climbs_alternative : Climbs c first (fun r last => Linked r.1 ∧
    (r.2.isSome = true → ∀ a ∈ r.1, a.condition ≠ none) ∧
    Rising first (r.1.flatMap Alternative.lines) last) (alternative block) := by
  have hnone : ∀ last, first ≤ last → Linked [] ∧
      ((none : Option Unit).isSome = true → ∀ a ∈ ([] : List Alternative), a.condition ≠ none) ∧
      Rising first (([] : List Alternative).flatMap Alternative.lines) last :=
    fun _ hlast => ⟨trivial, nofun, .nil hlast⟩
  refine climbs_here_bind fun start hstart hle =>
    climbs_after (fun _ => plain_skipTrivia) fun _ => ?_
  refine climbs_here_bind fun at' _ hline => climbs_after (fun _ => plain_keyword _) fun _ => ?_
  refine climbs_ite ?_
    (climbs_moveTo_bind hstart (climbs_pure fun last hlast => hnone last (Nat.le_trans hle hlast)))
  refine climbs_after (fun _ => plain_skipTrivia) fun _ => ?_
  have hrest : ∀ (condition : Option Expression) (mid : Nat),
      RisingExpressions at'.line condition.toList mid → Climbs c mid (fun r last => Linked r.1 ∧
        (r.2.isSome = true → ∀ a ∈ r.1, a.condition ≠ none) ∧
        Rising first (r.1.flatMap Alternative.lines) last) (do
          let _ ← skipTrivia
          let children ← block
          return ([⟨condition, at'.line, children⟩], if condition.isSome then some ()
            else none)) := by
    intro condition mid hcondition
    refine climbs_bind (climbs_of_plain fun _ => plain_skipTrivia) fun _ low hlow => ?_
    refine climbs_bind (hblock low) fun ns mid' hns => climbs_pure fun last hlast => ⟨?_, ?_, ?_⟩
    · exact ⟨fun _ => rfl, hns.2, trivial⟩
    · intro hmore a ha hnone
      cases List.mem_singleton.mp ha
      replace hnone : condition = none := hnone
      subst hnone
      cases hmore
    · rw [List.flatMap_singleton]
      exact .cons (Nat.le_trans hle hline) ((hcondition.mono hlow).append (hns.1.mono hlast))
  refine climbs_after (fun _ => plain_keyword _) fun _ => climbs_ite ?_ ?_
  · exact climbs_bind (climbs_some_expression _) hrest
  · exact climbs_bind (climbs_pure fun _ => .nil) hrest

include hline in
/-- The branches behind a branch come after its own block. -/
theorem climbs_branch : Climbs c first (Orderly line) (branch block line) := by
  refine climbs_bind (climbs_expression _) fun condition mid hcondition => ?_
  refine climbs_bind (climbs_of_plain fun _ => plain_skipTrivia) fun _ low hlow => ?_
  refine climbs_bind (hblock low) fun ns behind hns => ?_
  -- As long as the chain goes on, each of its branches has a condition.
  have hloop :
      Climbs c behind (fun as last => Linked as ∧ Rising behind (as.flatMap Alternative.lines) last)
      (unfold State.size (fun () => alternative block) ()) := by
    refine climbs_unfold (fun as last => (Linked as ∧ ∀ a ∈ as, a.condition ≠ none) ∧
        Rising behind (as.flatMap Alternative.lines) last)
      (fun _ hlast => ⟨⟨trivial, nofun⟩, .nil hlast⟩) (fun _ _ h => ⟨h.1.1, h.2⟩) ?_ ()
    rintro found mid ⟨⟨hlinked, hconditions⟩, hfound⟩ _ s hs hle
    refine (climbs_alternative hblock s hs hle).mono ?_ fun _ _ h => h
    rintro ⟨now, next⟩ t ⟨ht, hnow, hmore, hrising⟩
    have hboth : Rising behind ((found ++ now).flatMap Alternative.lines) t.cursor.line := by
      rw [List.flatMap_append]
      exact hfound.append hrising
    cases next with
    | none => exact ⟨ht, linked_append hlinked hnow hconditions, hboth⟩
    | some _ =>
      refine ⟨ht, ⟨linked_append hlinked hnow hconditions, fun a ha => ?_⟩, hboth⟩
      exact (List.mem_append.mp ha).elim (hconditions a) (hmore rfl a)
  refine climbs_bind hloop fun as mid' has => climbs_pure fun last hlast => ⟨?_, ?_⟩
  · rw [Node.lines, linesBehind_chain]
    refine .cons (Nat.le_refl _) (Rising.append ?_ (hns.1.append (has.2.mono hlast)))
    exact rising_one ((hcondition.mono hlow).lower hline)
  · rw [Node.Stands]
    exact ⟨stands_chain condition has.1, nofun, hns.2⟩

include hline in
theorem climbs_loop : Climbs c first (Orderly line) (loop block line) := by
  refine climbs_bind (climbs_expression _) fun condition mid hcondition => ?_
  refine climbs_bind (climbs_of_plain fun _ => plain_skipTrivia) fun _ low hlow => ?_
  refine climbs_bind (hblock low) fun ns mid' hns => climbs_pure fun last hlast => ?_
  exact orderly_node (.loop condition) (Nat.le_refl _) rfl trivial rfl
    (rising_one ((hcondition.mono hlow).lower hline)) (hns.mono hlast)

include hline in
/-- The argument of a general directive is kept as text and has no lines, so going back to behind it
loses none. -/
theorem climbs_atRule (name : Text) : Climbs c first (Orderly line) (atRule block name line) := by
  refine climbs_after (fun _ => plain_value) fun value =>
    climbs_here_bind fun behind hbehind hle => ?_
  refine climbs_bind (climbs_of_plain fun _ => plain_skipTrivia) fun _ low hlow => ?_
  refine climbs_after (fun _ => plain_sees _) fun _ => climbs_ite ?_ ?_
  · refine climbs_bind (hblock low) fun ns mid hns => climbs_pure fun last hlast => ?_
    exact orderly_node (.atRule name value) (Nat.le_refl _) rfl trivial rfl
      (.nil (Nat.le_trans (Nat.le_trans hline hle) hlow)) (hns.mono hlast)
  · refine climbs_moveTo_bind hbehind (climbs_pure fun last hlast => ?_)
    exact orderly_leaf (.atRule name value) (Nat.le_refl _) rfl trivial
      (.nil (Nat.le_trans (Nat.le_trans hline hle) hlast))

end Directive

/-- Every directive is on the line of its sign. -/
theorem climbs_directive : Climbs c first (Orderly first) (directive block) := by
  refine climbs_here_bind fun d _ hle => climbs_after (fun _ => plain_expect _) fun _ => ?_
  refine climbs_after (fun _ => plain_identifier) fun name => ?_
  have hlower : ∀ n last, Orderly d.line n last → Orderly first n last :=
    fun n last hn => hn.lower hle
  refine Climbs.mono ?_ hlower
  have hline : d.line ≤ d.line := Nat.le_refl _
  split
  · exact Directive.climbs_definition hblock hline
  · exact Directive.climbs_inclusion hline
  · exact Directive.climbs_branch hblock hline
  · exact climbs_throw _
  · exact Directive.climbs_loop hblock hline
  · refine climbs_bind (climbs_expression _) fun e mid he => climbs_pure fun last hlast => ?_
    exact orderly_leaf (.debug e) hline rfl trivial (rising_one (he.mono hlast))
  · refine climbs_bind (climbs_expression _) fun e mid he => climbs_pure fun last hlast => ?_
    exact orderly_leaf (.warn e) hline rfl trivial (rising_one (he.mono hlast))
  · exact Directive.climbs_atRule hblock hline name

include hline in
/-- The value of a property comes before its block. -/
theorem climbs_declarationValue (name : Text) (spaced : Bool) :
    Climbs c first (Orderly line) (declarationValue block name line spaced) := by
  have hrest : ∀ (value : Option Expression) (mid : Nat), RisingExpressions first value.toList mid →
      Climbs c mid (Orderly line) (do
        let important ← flag .important
        let behind ← here
        let _ ← skipTrivia
        if ← sees (char '{') then
          unless spaced do
            fail "\";\""
          return ⟨.property name value important, line, ← block⟩
        else
          moveTo behind
          return .leaf (.property name value important) line) := by
    intro value mid hvalue
    refine climbs_bind (climbs_of_plain fun _ => plain_flag _) fun important mid' hmid' => ?_
    refine climbs_here_bind fun behind hbehind hle => ?_
    have hvalue' := (hvalue.mono (Nat.le_trans hmid' hle)).lower hline
    refine climbs_bind (climbs_of_plain fun _ => plain_skipTrivia) fun _ low hlow => ?_
    refine climbs_after (fun _ => plain_sees _) fun _ => climbs_ite (climbs_check _ ?_) ?_
    · refine climbs_bind (hblock low) fun ns mid hns => climbs_pure fun last hlast => ?_
      exact orderly_node (.property name value important) (Nat.le_refl _) rfl trivial rfl
        (hvalue'.mono hlow) (hns.mono hlast)
    · refine climbs_moveTo_bind hbehind (climbs_pure fun last hlast => ?_)
      exact orderly_leaf (.property name value important) (Nat.le_refl _) rfl trivial
        (hvalue'.mono hlast)
  refine climbs_after (fun _ => plain_andM (plain_pure _) (plain_sees _)) fun _ => climbs_ite ?_ ?_
  · exact climbs_bind (climbs_pure fun _ => .nil) hrest
  · exact climbs_bind (climbs_some_expression _) hrest

/-- A declaration is on the line of its name, and its value is read from there on. -/
theorem climbs_declaration : Climbs c first (Orderly first) (declaration block) := by
  have hstart : Climbs c first (fun d last => c.Before d ∧ first ≤ d.line ∧ d.line ≤ last) here :=
    climbs_here_bind fun d hd hle => climbs_pure fun last hlast => ⟨hd, hle, hlast⟩
  refine climbs_bind (climbs_during _ hstart) fun start low hlow => ?_
  refine climbs_after (fun _ => plain_during _ (plain_passes _)) fun marked => ?_
  refine climbs_after (fun _ => plain_during _ (plain_declarationName start)) fun name => ?_
  refine climbs_after (fun _ => plain_during _ plain_skipTrivia) fun spaced => ?_
  refine climbs_after (fun _ => plain_during _ (plain_sees _)) fun named => ?_
  refine climbs_during _ (Climbs.mono (climbs_declarationValue hblock hlow.2.2 name spaced) ?_)
  exact fun n last hn => hn.lower hlow.2.1

/-- Selectors are kept as text, so a ruleset has only the lines of its block. -/
theorem climbs_ruleset : Climbs c first (Orderly first) (ruleset block) := by
  refine climbs_here_bind fun d _ hle =>
    climbs_after (fun _ => Selector.plain_groupText) fun text => ?_
  refine climbs_bind (climbs_of_plain fun _ => plain_skipTrivia) fun _ low hlow => ?_
  refine climbs_bind (hblock low) fun ns mid hns => climbs_pure fun last hlast => ?_
  exact orderly_node (.ruleset text) hle rfl trivial rfl (.nil hlow) (hns.mono hlast)

/-- What is read again is read from the line it starts on. -/
theorem climbs_declarationOrRuleset :
    Climbs c first (Orderly first) (declarationOrRuleset block) := by
  intro s hs hle
  have hagain : ∀ t : State, Ends (ruleset block) (t.giveUp s)
      (fun n t => c.Before t.cursor ∧ Orderly first n t.cursor.line) (fun _ _ => True) :=
    fun t => climbs_ruleset hblock (t.giveUp s) hs hle
  have hfirst := climbs_declaration hblock s hs hle
  unfold Ends at hfirst ⊢
  unfold declarationOrRuleset
  cases hresult : declaration block s with
  | ok n t =>
    rw [hresult] at hfirst
    by_cases hend : t.atEndOfDeclaration = true
    · simp only [if_pos hend]
      exact hfirst
    · simp only [if_neg hend]
      exact hagain t
  | error e t =>
    have hsecond := hagain t
    unfold Ends at hsecond
    simp only
    cases hruleset : ruleset block (t.giveUp s) with
    | ok n u =>
      rw [hruleset] at hsecond
      exact hsecond
    | error e' u => trivial

theorem climbs_statement : Climbs c first (Orderly first) (statement block) := by
  refine climbs_after (fun _ => plain_sees _) fun _ => climbs_ite climbs_assignment ?_
  refine climbs_after (fun _ => plain_sees _) fun _ => ?_
  exact climbs_ite (climbs_directive hblock) (climbs_declarationOrRuleset hblock)

/-- One round of a list of statements finds one of them or none, and what may stand between two has
no lines. -/
theorem climbs_listStep (nested : Bool) :
    Climbs c first (fun r last => OrderlyNodes first r.1 last) (listStep block nested) := by
  refine climbs_after (fun _ => plain_passes _) fun _ =>
    climbs_after (fun _ => plain_listEnds _) fun _ => ?_
  refine climbs_ite (climbs_pure fun _ => .nil) (climbs_after (fun _ => plain_passes _) fun _ => ?_)
  refine climbs_ite (climbs_pure fun _ => .nil) (climbs_bind climbs_comment fun n mid hn => ?_)
  cases n with
  | some n => exact climbs_pure fun last hlast => hn.mono hlast
  | none =>
    refine climbs_bind (climbs_statement hblock) fun n mid' hnode => ?_
    have hanswer : ∀ low, mid' ≤ low →
        Climbs c low (fun r last => OrderlyNodes first r.1 last)
          (pure ([n], some ()) : Production (List Node × Option Unit)) :=
      fun low hlow => climbs_pure fun last hlast =>
        (hnode.lower hn.1.le).singleton.mono (Nat.le_trans hlow hlast)
    refine climbs_get_bind fun s => climbs_ite (hanswer mid' (Nat.le_refl _)) ?_
    refine climbs_bind (climbs_of_plain fun _ => plain_skipTrivia) fun _ low hlow => ?_
    refine climbs_bind (climbs_of_plain fun _ => plain_orM (plain_passes _) (plain_listEnds _)) ?_
    exact fun _ low' hlow' => climbs_check _ (hanswer low' (Nat.le_trans hlow hlow'))

theorem climbs_statements (nested : Bool) :
    Climbs c first (OrderlyNodes first) (statements block nested) := by
  refine climbs_unfold (OrderlyNodes first) (fun _ => .nil) (fun _ _ h => h)
    (fun found mid hfound b => ?_) ()
  intro s hs hline
  refine (climbs_listStep hblock nested s hs hline).mono ?_ fun _ _ h => h
  rintro ⟨now, next⟩ t ⟨ht, hnow⟩
  cases next <;> exact ⟨ht, hfound.append hnow⟩

theorem climbs_blockBy : Climbs c first (OrderlyNodes first) (blockBy block) := by
  refine climbs_after (fun _ => plain_expect _) fun _ => ?_
  refine climbs_bind (climbs_statements hblock true) fun ns mid hns => ?_
  refine climbs_bind (climbs_of_plain fun _ => plain_expect _) fun _ low hlow => ?_
  intro s hs hline
  exact ⟨hs, hns.1.mono (Nat.le_trans hlow hline), hns.2⟩

end

theorem climbs_block : Climbs c first (OrderlyNodes first) block :=
  climbs_recurse (fun hle h => ⟨h.1.lower hle, h.2⟩) (fun _ => climbs_fail _)
    fun _ hblock _ => climbs_blockBy hblock

/-- The root is on the line the text starts on, with all statements below it. -/
theorem climbs_document : Climbs c first (fun n last => n.kind = .root ∧
    Rising first n.lines last ∧ Node.AllStand n.children) document := by
  refine climbs_here_bind fun d _ hle => ?_
  refine climbs_bind (climbs_statements (fun _ => climbs_block) false) fun ns mid hns => ?_
  exact climbs_pure fun last hlast =>
    ⟨rfl, rising_node hle rfl (.nil (Nat.le_refl _)) (hns.1.mono hlast), hns.2⟩

end Grammar
end Stylesheet
