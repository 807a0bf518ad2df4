import Stylesheet.Parse
import Stylesheet.Proofs.OpenInterpolation
import Stylesheet.Proofs.Productions
import Stylesheet.Proofs.Stable

/-!
# What a document keeps of its text

Every expression in the document of a text was taken by a lexer somewhere in that text
(`written_of_parse`), so what is known of the lexers of expressions is known of the document.  The
text of a ruleset was read as a group of selectors, and the argument of a general at-rule as an
expression or, where there is none, as a group of selectors (`nodeRead_of_parse`).

`Yields` says of a production what its answer holds, as long as it runs ahead of a place and with
certain options.  It is passed on by the ways to put productions together, and a production that
reads no blocks needs nothing but its answer looked at.  `YieldsAt` says it of a production that
starts at a place of a certain kind: selectors and the statements that begin with them start where
there is neither white space nor a comment.
-/
namespace Stylesheet

/-! ### Collecting the expressions -/

mutual

/-- The expressions of a node and of the nodes below it. -/
def Node.expressions : Node → List Expression
  | ⟨kind, _, children⟩ => kind.expressions ++ Node.expressionsOf children

/-- The expressions of a kind of node, those of the branches behind a branch included. -/
def NodeKind.expressions : NodeKind → List Expression
  | .root | .atRule .. | .ruleset _ | .comment .. => []
  | .property _ value _ => value.toList
  | .definition d => d.parameters.filterMap (·.default)
  | .inclusion _ arguments => arguments
  | .assignment _ value _ => [value]
  | .debug value => [value]
  | .warn value => [value]
  | .branch condition none => condition.toList
  | .branch condition (some otherwise) => condition.toList ++ otherwise.expressions
  | .loop condition => [condition]

/-- The expressions of some nodes. -/
def Node.expressionsOf : List Node → List Expression
  | [] => []
  | n :: ns => n.expressions ++ Node.expressionsOf ns

end

/-- The expressions of a kind of node, without those of the branches behind a branch. -/
def NodeKind.ownExpressions : NodeKind → List Expression
  | .branch condition _ => condition.toList
  | kind => kind.expressions

mutual

/-- The kinds of a node and of the nodes below it. -/
def Node.kinds : Node → List NodeKind
  | ⟨kind, _, children⟩ => kind.kinds ++ Node.kindsOf children

/-- A kind of node, and those of the branches behind a branch. -/
def NodeKind.kinds : NodeKind → List NodeKind
  | .branch condition (some otherwise) => .branch condition (some otherwise) :: otherwise.kinds
  | kind => [kind]

/-- The kinds of some nodes. -/
def Node.kindsOf : List Node → List NodeKind
  | [] => []
  | n :: ns => n.kinds ++ Node.kindsOf ns

end

theorem Node.mem_kindsOf {k : NodeKind} {ns : List Node} :
    k ∈ Node.kindsOf ns ↔ ∃ n ∈ ns, k ∈ n.kinds := by
  induction ns with
  | nil => simp [Node.kindsOf]
  | cons n ns ih => simp [Node.kindsOf, ih]

theorem Node.mem_kinds {k kind : NodeKind} {line : Nat} {ns : List Node} :
    k ∈ (⟨kind, line, ns⟩ : Node).kinds ↔ k ∈ kind.kinds ∨ ∃ n ∈ ns, k ∈ n.kinds := by
  rw [Node.kinds, List.mem_append, Node.mem_kindsOf]

mutual

/-- Every expression of a node belongs to one of its kinds. -/
theorem Node.exists_kind {e : Expression} : ∀ {n : Node}, e ∈ n.expressions →
    ∃ k ∈ n.kinds, e ∈ k.ownExpressions
  | ⟨kind, _, children⟩, h => by
    rw [Node.expressions, List.mem_append] at h
    simp only [Node.kinds, List.mem_append]
    rcases h with h | h
    · obtain ⟨k, hk, he⟩ := NodeKind.exists_kind h
      exact ⟨k, .inl hk, he⟩
    · obtain ⟨k, hk, he⟩ := Node.exists_kindOf h
      exact ⟨k, .inr hk, he⟩

theorem NodeKind.exists_kind {e : Expression} : ∀ {kind : NodeKind}, e ∈ kind.expressions →
    ∃ k ∈ kind.kinds, e ∈ k.ownExpressions
  | .branch condition (some otherwise), h => by
    rw [NodeKind.expressions, List.mem_append] at h
    rcases h with h | h
    · exact ⟨_, List.mem_cons_self, h⟩
    · obtain ⟨k, hk, he⟩ := Node.exists_kind h
      exact ⟨k, List.mem_cons_of_mem _ hk, he⟩
  | .branch _ none, h => ⟨_, List.mem_cons_self, h⟩
  | .root, h => ⟨_, List.mem_cons_self, h⟩
  | .atRule .., h => ⟨_, List.mem_cons_self, h⟩
  | .ruleset _, h => ⟨_, List.mem_cons_self, h⟩
  | .comment .., h => ⟨_, List.mem_cons_self, h⟩
  | .property .., h => ⟨_, List.mem_cons_self, h⟩
  | .definition _, h => ⟨_, List.mem_cons_self, h⟩
  | .inclusion .., h => ⟨_, List.mem_cons_self, h⟩
  | .assignment .., h => ⟨_, List.mem_cons_self, h⟩
  | .debug _, h => ⟨_, List.mem_cons_self, h⟩
  | .warn _, h => ⟨_, List.mem_cons_self, h⟩
  | .loop _, h => ⟨_, List.mem_cons_self, h⟩

theorem Node.exists_kindOf {e : Expression} : ∀ {ns : List Node}, e ∈ Node.expressionsOf ns →
    ∃ k ∈ Node.kindsOf ns, e ∈ k.ownExpressions
  | [], h => by cases h
  | n :: ns, h => by
    rw [Node.expressionsOf, List.mem_append] at h
    simp only [Node.kindsOf, List.mem_append]
    rcases h with h | h
    · obtain ⟨k, hk, he⟩ := Node.exists_kind h
      exact ⟨k, .inl hk, he⟩
    · obtain ⟨k, hk, he⟩ := Node.exists_kindOf h
      exact ⟨k, .inr hk, he⟩

end

namespace Grammar

variable {ε α β : Type} {c : Cursor} {o : Options}

/-! ### What productions answer -/

/-- From wherever it starts ahead of a place, with the options given, a production goes on ahead of
the place and keeps the options, and its answer is as said. -/
def Yields (c : Cursor) (o : Options) (good : α → Prop) (p : EStateM ε State α) : Prop :=
  ∀ s, c.Before s.cursor → s.options = o →
    Ends p s (fun a t => (c.Before t.cursor ∧ t.options = o) ∧ good a)
      (fun _ t => c.Before t.cursor ∧ t.options = o)

theorem yields_of_plain {p : EStateM ε State α} (h : Plain c p) : Yields c o (fun _ => True) p :=
  fun s hs ho =>
    (h s hs).mono (fun _ _ ⟨hkept, _⟩ => ⟨⟨hkept.ahead, hkept.options.trans ho⟩, trivial⟩)
    (fun _ _ ⟨hkept, _⟩ => ⟨hkept.ahead, hkept.options.trans ho⟩)

section
variable {good : α → Prop} {good' : β → Prop}

theorem yields_pure {a : α} (h : good a) : Yields c o good (pure a : EStateM ε State α) :=
  fun _ hs ho => ⟨⟨hs, ho⟩, h⟩

theorem yields_throw (e : ε) : Yields c o good (throw e : EStateM ε State α) :=
  fun _ hs ho => ⟨hs, ho⟩

theorem yields_bind {p : EStateM ε State α} {f : α → EStateM ε State β} (hp : Yields c o good p)
    (hf : ∀ a, good a → Yields c o good' (f a)) : Yields c o good' (p >>= f) := by
  intro s hs ho
  refine ends_bind.mpr ((hp s hs ho).mono ?_ fun _ _ h => h)
  rintro a t ⟨⟨ht, ho⟩, ha⟩
  exact hf a ha t ht ho

/-- What follows a production that reads no blocks. -/
theorem yields_after {p : EStateM ε State α} {f : α → EStateM ε State β} (hp : Plain c p)
    (hf : ∀ a, Yields c o good' (f a)) : Yields c o good' (p >>= f) :=
  yields_bind (yields_of_plain hp) fun a _ => hf a

theorem yields_map {f : α → β} {p : EStateM ε State α} (h : Yields c o good p)
    (hf : ∀ a, good a → good' (f a)) : Yields c o good' (f <$> p) :=
  yields_bind h fun a ha => yields_pure (hf a ha)

theorem yields_here_bind {f : Cursor → Production β}
    (h : ∀ d, c.Before d → Yields c o good' (f d)) : Yields c o good' (here >>= f) :=
  fun s hs ho => h s.cursor hs s hs ho

theorem yields_get_bind {f : State → Production β} (h : ∀ t, Yields c o good' (f t)) :
    Yields c o good' (get >>= f) :=
  fun s hs ho => h s s hs ho

theorem yields_ite {P : Prop} [Decidable P] {p q : EStateM ε State α} (hp : Yields c o good p)
    (hq : Yields c o good q) : Yields c o good (if P then p else q) := by
  split
  · exact hp
  · exact hq

theorem yields_fail (expected : String) : Yields c o good (fail expected : Production α) :=
  yields_here_bind fun _ _ => yields_throw _

theorem yields_check {P : Prop} [Decidable P] {f : Unit → Production α} (expected : String)
    (h : Yields c o good (f ())) : Yields c o good (if P then f () else fail expected >>= f) :=
  yields_ite h (yields_after (plain_fail _) fun _ => h)

/-- What every round of a loop finds. -/
theorem yields_unfold {step : β → EStateM ε State (List α × Option β)}
    (h : ∀ b, Yields c o (fun r => ∀ a ∈ r.1, good a) (step b)) (b : β) :
    Yields c o (fun as => ∀ a ∈ as, good a) (unfold State.size step b) := by
  intro s hs ho
  refine Ends.unfold (fun found _ t => (c.Before t.cursor ∧ t.options = o) ∧ ∀ a ∈ found, good a)
    ?_ ⟨⟨hs, ho⟩, nofun⟩
  rintro found b t ⟨⟨ht, ho⟩, hfound⟩
  refine (h b t ht ho).mono ?_ fun _ _ h => h
  rintro ⟨now, next⟩ u ⟨hu, hnow⟩
  have hboth : ∀ a ∈ found ++ now, good a := by
    intro a ha
    rcases List.mem_append.mp ha with ha | ha
    · exact hfound a ha
    · exact hnow a ha
  cases next with
  | none => exact ⟨hu, hboth⟩
  | some b' =>
    simp only
    split <;> exact ⟨hu, hboth⟩

theorem yields_recurse {stuck : EStateM ε State α} {rule : EStateM ε State α → EStateM ε State α}
    (hstuck : Yields c o good stuck) (hrule : ∀ p, Yields c o good p → Yields c o good (rule p)) :
    Yields c o good (recurse State.size stuck rule) := by
  intro s hs ho
  refine Ends.recurse (fun t => c.Before t.cursor ∧ t.options = o)
    (fun t ht => hstuck t ht.1 ht.2) (fun p hp t ht => ?_) ⟨hs, ho⟩
  exact hrule p (fun u hu ho => hp u ⟨hu, ho⟩) t ht.1 ht.2

theorem yields_during {p : Production α} (committed : Bool) (h : Yields c o good p) :
    Yields c o good (during committed p) := by
  intro s hs ho
  have hrun := h s hs ho
  unfold Ends at hrun ⊢
  unfold during
  cases hresult : p s with
  | error e t =>
    rw [hresult] at hrun
    exact hrun
  | ok a t =>
    rw [hresult] at hrun
    exact hrun

end

/-! ### Productions that start at certain places -/

/-- What `Yields` says, of a production that starts at a place of a certain kind. -/
def YieldsAt (place : Cursor → Prop) (c : Cursor) (o : Options) (good : α → Prop)
    (p : EStateM ε State α) : Prop :=
  ∀ s, c.Before s.cursor → s.options = o → place s.cursor →
    Ends p s (fun a t => (c.Before t.cursor ∧ t.options = o) ∧ good a)
      (fun _ t => c.Before t.cursor ∧ t.options = o)

section
variable {place : Cursor → Prop} {good : α → Prop}

theorem Yields.at {p : EStateM ε State α} (h : Yields c o good p) : YieldsAt place c o good p :=
  fun s hs ho _ => h s hs ho

theorem yieldsAt_ite {P : Prop} [Decidable P] {p q : EStateM ε State α}
    (hp : YieldsAt place c o good p) (hq : YieldsAt place c o good q) :
    YieldsAt place c o good (if P then p else q) := by
  split
  · exact hp
  · exact hq

theorem yieldsAt_bind {good' : β → Prop} {p : EStateM ε State α} {f : α → EStateM ε State β}
    (hp : YieldsAt place c o good p) (hf : ∀ a, good a → Yields c o good' (f a)) :
    YieldsAt place c o good' (p >>= f) := by
  intro s hs ho hplace
  refine ends_bind.mpr ((hp s hs ho hplace).mono ?_ fun _ _ h => h)
  rintro a t ⟨⟨ht, ho⟩, ha⟩
  exact hf a ha t ht ho

/-- What follows a production that only looks. -/
theorem yieldsAt_still {p : EStateM ε State β} {f : β → EStateM ε State α}
    (hp : ∀ s, ∃ b, p s = .ok b s) (hf : ∀ b, YieldsAt place c o good (f b)) :
    YieldsAt place c o good (p >>= f) := by
  intro s hs ho hplace
  obtain ⟨b, hb⟩ := hp s
  have hrest := hf b s hs ho hplace
  unfold Ends at hrest ⊢
  rwa [bind_apply, hb]

/-- Where a form of text does not come next, the place stays. -/
theorem yieldsAt_passes {form : Recognizer} {p q : Production α} (hp : Yields c o good p)
    (hq : YieldsAt place c o good q) :
    YieldsAt place c o good (passes form >>= fun found => if found then p else q) := by
  intro s hs ho hplace
  unfold Ends
  rw [bind_apply, passes_apply]
  cases form s.cursor.rest with
  | none => exact hq s hs ho hplace
  | some n => exact hp _ (hs.advance n) ho

end

theorem still_sees (form : Recognizer) (s : State) : ∃ b, sees form s = .ok b s :=
  ⟨_, rfl⟩

theorem still_listEnds (nested : Bool) (s : State) : ∃ b, listEnds nested s = .ok b s :=
  ⟨_, rfl⟩

/-! ### Expressions and what is made of them -/

/-- A lexer took the expression somewhere ahead of a place, behind white space and comments. -/
def Written (c : Cursor) (o : Options) (e : Expression) : Prop :=
  ∃ stop d l, c.Before d ∧
    Lexer.collectUntil (Nesting.after stop) {} (.ofCursor d o) = .ok e.tokens l ∧
    e.text = l.previousEnd.textSince d ∧ e.line = d.line ∧
    Recognizer.trivia d.rest = none ∧ e.tokens ≠ []

/-- A text is that of the selectors read from a state ahead of a place, behind white space and
comments. -/
structure Selected (c : Cursor) (o : Options) (s : State) (text : Text) : Prop where
  ahead : c.Before s.cursor
  options : s.options = o
  place : Recognizer.trivia s.cursor.rest = none
  group : ∃ t, Selector.groupText s = .ok text t

/-- What a kind of node keeps of the text was read ahead of a place.  Selectors are the argument of
an at-rule only where no expression is. -/
structure KindRead (c : Cursor) (o : Options) (kind : NodeKind) : Prop where
  expressions : ∀ e ∈ kind.ownExpressions, Written c o e
  selector : ∀ text, kind = .ruleset text → ∃ s, Selected c o s text
  argument : ∀ name text, kind = .atRule name (some text) →
    (∃ e, Written c o e ∧ text = e.text) ∨
      ∃ s, Selected c o s text ∧ ∀ e t, expression .statement s ≠ .ok e t

/-- What a node keeps of the text was read ahead of a place, and what the nodes below it keep. -/
def NodeRead (c : Cursor) (o : Options) (n : Node) : Prop :=
  ∀ k ∈ n.kinds, KindRead c o k

/-- Passing a form of text moves as skipping it does. -/
theorem passes_skip (form : Recognizer) (s : State) :
    ∃ b, passes form s = .ok b { s with cursor := s.cursor.skip form } := by
  rw [passes_apply, Cursor.skip, Cursor.pass?]
  cases form s.cursor.rest with
  | none => exact ⟨false, rfl⟩
  | some n => exact ⟨true, rfl⟩

/-- An expression is what its lexer took behind white space and comments. -/
theorem expression_apply (stop : Stop) (s : State) :
    expression stop s =
      let d := s.cursor.skip Recognizer.trivia
      match Lexer.collectUntil (Nesting.after stop) {} (.ofCursor d s.options) with
      | .error e _ => .error e { s with cursor := d }
      | .ok tokens l =>
        let t := { s with cursor := l.front, warnings := s.warnings ++ l.warnings }
        if tokens.isEmpty then .error (l.front.unexpected "expression") t
        else .ok ⟨l.previousEnd.textSince d, tokens, d.line⟩ t := by
  obtain ⟨b, hskip⟩ : ∃ b, skipTrivia s = _ := passes_skip Recognizer.trivia s
  unfold expression
  simp only [bind_apply, hskip, here, pure_apply, get_apply, lexing]
  cases Lexer.collectUntil (Nesting.after stop) {}
    (.ofCursor (s.cursor.skip Recognizer.trivia) s.options) with
  | error e l => rfl
  | ok tokens l =>
    simp only
    split <;> rfl

theorem written_of_expression {stop : Stop} {s t : State} {e : Expression}
    (h : expression stop s = .ok e t) :
    ∃ l, Lexer.collectUntil (Nesting.after stop) {}
        (.ofCursor (s.cursor.skip Recognizer.trivia) s.options) = .ok e.tokens l ∧
      e.text = l.previousEnd.textSince (s.cursor.skip Recognizer.trivia) ∧
      e.line = (s.cursor.skip Recognizer.trivia).line ∧ t.cursor = l.front := by
  rw [expression_apply] at h
  simp only at h
  split at h
  · cases h
  · next tokens l hlexer =>
    split at h
    · cases h
    · cases h
      exact ⟨l, hlexer, rfl, rfl, rfl⟩

theorem tokens_of_expression {stop : Stop} {s t : State} {e : Expression}
    (h : expression stop s = .ok e t) : e.tokens ≠ [] := by
  rw [expression_apply] at h
  simp only at h
  split at h
  · cases h
  · split at h
    · cases h
    · next hne =>
      cases h
      exact fun hnil => hne (List.isEmpty_iff.mpr hnil)

theorem yields_expression (stop : Stop) : Yields c o (Written c o) (expression stop) := by
  intro s hs ho
  have hrun := (yields_of_plain (plain_expression stop) s hs ho).and_of_ok fun e t h => by
    obtain ⟨l, hlexer, htext, hline, _⟩ := written_of_expression h
    exact (⟨stop, _, l, hs.skip _, ho ▸ hlexer, htext, hline, Cursor.trivia_rest_skip s.cursor,
      tokens_of_expression h⟩ : Written c o e)
  exact hrun.mono (fun _ _ h => ⟨h.1.1, h.2⟩) fun _ _ h => h

theorem yields_some_expression (stop : Stop) :
    Yields c o (fun v => ∀ e, v = some e → Written c o e) (some <$> expression stop) := by
  refine yields_map (yields_expression stop) fun e he => ?_
  rintro _ ⟨⟩
  exact he

theorem nodeRead_node {kind : NodeKind} {line : Nat} {ns : List Node}
    (hkind : ∀ k ∈ kind.kinds, KindRead c o k) (hns : ∀ n ∈ ns, NodeRead c o n) :
    NodeRead c o ⟨kind, line, ns⟩ := by
  intro k hk
  rcases Node.mem_kinds.mp hk with hk | ⟨n, hn, hk⟩
  · exact hkind k hk
  · exact hns n hn k hk

/-- A node whose kind has no branches behind it. -/
theorem nodeRead_of_kind {kind : NodeKind} {line : Nat} {ns : List Node}
    (hself : kind.kinds = [kind]) (hkind : KindRead c o kind) (hns : ∀ n ∈ ns, NodeRead c o n) :
    NodeRead c o ⟨kind, line, ns⟩ := by
  refine nodeRead_node (fun k hk => ?_) hns
  rw [hself] at hk
  rwa [List.mem_singleton.mp hk]

theorem nodeRead_leaf {kind : NodeKind} {line : Nat} (hself : kind.kinds = [kind])
    (hkind : KindRead c o kind) : NodeRead c o (.leaf kind line) :=
  nodeRead_of_kind hself hkind nofun

/-- A kind of node that keeps one expression and no other text. -/
theorem written_singleton {e : Expression} (h : Written c o e) : ∀ e' ∈ [e], Written c o e' := by
  intro e' he
  rwa [List.mem_singleton.mp he]

/-! ### Selectors -/

theorem ends_groupText {s : State} (hs : c.Before s.cursor) (ho : s.options = o)
    (htrivia : Recognizer.trivia s.cursor.rest = none) :
    Ends Selector.groupText s
      (fun text t => (c.Before t.cursor ∧ t.options = o) ∧ Selected c o s text)
      (fun _ t => c.Before t.cursor ∧ t.options = o) := by
  have hrun := (yields_of_plain Selector.plain_groupText s hs ho).and_of_ok fun text t h =>
    (⟨hs, ho, htrivia, t, h⟩ : Selected c o s text)
  exact hrun.mono (fun _ _ h => ⟨h.1.1, h.2⟩) fun _ _ h => h

theorem ends_orElse {p q : Production α} {s : State} {post : α → State → Prop}
    {failed : SyntaxError → State → Prop}
    (h : Ends p s post fun _ t => Ends q t post failed) : Ends (p <|> q) s post failed := by
  unfold Ends at h ⊢
  rw [orElse_apply]
  cases hp : p s with
  | ok a t =>
    rw [hp] at h
    exact h
  | error e t =>
    rw [hp] at h
    exact h

/-- Whether an expression can be read is a matter of the place and the options. -/
theorem expression_eq_ok_iff {stop : Stop} {s : State} :
    (∃ e t, expression stop s = .ok e t) ↔
      ∃ tokens l, Lexer.collectUntil (Nesting.after stop) {}
        (.ofCursor (s.cursor.skip Recognizer.trivia) s.options) = .ok tokens l ∧ tokens ≠ [] := by
  constructor
  · rintro ⟨e, t, h⟩
    obtain ⟨l, hlexer, _⟩ := written_of_expression h
    exact ⟨e.tokens, l, hlexer, tokens_of_expression h⟩
  · rintro ⟨tokens, l, hlexer, hne⟩
    rw [expression_apply]
    simp only [hlexer, List.isEmpty_iff, if_neg hne]
    exact ⟨_, _, rfl⟩

/-- The text of an expression, or the place is given back. -/
theorem Directive.ends_asExpression {s : State} (hs : c.Before s.cursor) (ho : s.options = o) :
    Ends (value.asExpression s.cursor) s
      (fun found t => (c.Before t.cursor ∧ t.options = o) ∧
        ∃ e, Written c o e ∧ found = some e.text)
      (fun _ t => t.cursor = s.cursor ∧ t.options = o ∧
        ∀ e u, expression .statement t ≠ .ok e u) := by
  have hrun := yields_expression .statement s hs ho
  unfold Ends at hrun ⊢
  unfold value.asExpression
  cases hresult : expression .statement s with
  | error e t =>
    rw [hresult] at hrun
    refine ⟨rfl, hrun.2, fun e' u hagain => ?_⟩
    -- Read again from here, the expression would be there in the first place.
    have hok := expression_eq_ok_iff.mp ⟨e', u, hagain⟩
    have hsame : t.options = s.options := hrun.2.trans ho.symm
    simp only [hsame] at hok
    obtain ⟨e', u, hfirst⟩ := expression_eq_ok_iff.mpr hok
    rw [hresult] at hfirst
    cases hfirst
  | ok e t =>
    rw [hresult] at hrun
    exact ⟨hrun.1, e, hrun.2, rfl⟩

/-- The argument of a general directive is the text of an expression or, where there is none, of a
group of selectors. -/
theorem Directive.yields_value :
    Yields c o (fun found => ∀ text, found = some text →
      (∃ e, Written c o e ∧ text = e.text) ∨
        ∃ s, Selected c o s text ∧ ∀ e t, expression .statement s ≠ .ok e t) Directive.value := by
  refine yields_here_bind fun behind hbehind s hs ho => ?_
  obtain ⟨b, hskip⟩ : ∃ b, skipTrivia s = _ := passes_skip Recognizer.trivia s
  obtain ⟨t, ht⟩ : ∃ t, t = { s with cursor := s.cursor.skip Recognizer.trivia } := ⟨_, rfl⟩
  rw [← ht] at hskip
  have hplace : c.Before t.cursor := ht ▸ hs.skip _
  have hoptions : t.options = o := ht ▸ ho
  have htrivia : Recognizer.trivia t.cursor.rest = none := ht ▸ Cursor.trivia_rest_skip s.cursor
  refine ends_bind.mpr ?_
  unfold Ends
  rw [hskip]
  show Ends (if _ then _ else _) t _ _
  split
  · exact ⟨⟨hbehind, hoptions⟩, nofun⟩
  · refine ends_orElse ((ends_asExpression hplace hoptions).mono ?_ ?_)
    · rintro _ u ⟨hu, e, he, rfl⟩
      refine ⟨hu, ?_⟩
      rintro _ ⟨⟩
      exact .inl ⟨e, he, rfl⟩
    · rintro _ u ⟨hcursor, hu, hnone⟩
      have hselected := ends_groupText (hcursor ▸ hplace) hu (hcursor ▸ htrivia)
      refine ends_bind.mpr (hselected.mono ?_ fun _ _ h => h)
      rintro text v ⟨hv, htext⟩
      refine ⟨hv, ?_⟩
      rintro _ ⟨⟩
      exact .inr ⟨u, htext, hnone⟩

/-! ### Statements without blocks -/

theorem comment_apply (s : State) :
    comment s =
      match Recognizer.blockComment s.cursor.rest, Recognizer.lineComment s.cursor.rest with
      | some n, _ => .ok (some (.leaf (.comment (s.cursor.rest.take n) false) s.cursor.line))
          { s with cursor := s.cursor.advance n }
      | none, some n => .ok (some (.leaf (.comment (s.cursor.rest.take n) true) s.cursor.line))
          { s with cursor := s.cursor.advance n }
      | none, none => .ok none s := by
  unfold comment
  simp only [bind_apply, here, pure_apply, get_apply, take?_apply]
  cases Recognizer.blockComment s.cursor.rest with
  | some n => rfl
  | none =>
    simp only [bind_apply, take?_apply]
    cases Recognizer.lineComment s.cursor.rest <;> rfl

theorem nodeRead_comment (text : Text) (silent : Bool) (line : Nat) :
    NodeRead c o (.leaf (.comment text silent) line) :=
  nodeRead_leaf rfl ⟨nofun, nofun, nofun⟩

/-- What follows white space starts where there is none. -/
theorem yields_passes_blanks {good : α → Prop} {f : Bool → Production α}
    (h : ∀ b, YieldsAt (fun d => Recognizer.blanks d.rest = none) c o good (f b)) :
    Yields c o good (passes Recognizer.blanks >>= f) := by
  intro s hs ho
  obtain ⟨b, hskip⟩ := passes_skip Recognizer.blanks s
  have hrest := h b { s with cursor := s.cursor.skip Recognizer.blanks } (hs.skip _) ho
    (Cursor.blanks_rest_skip s.cursor)
  unfold Ends at hrest ⊢
  rwa [bind_apply, hskip]

/-- Where there is neither white space nor a comment, a statement starts. -/
theorem yieldsAt_comment {good : α → Prop} {f : Option Node → Production α}
    (hsome : ∀ n, NodeRead c o n → Yields c o good (f (some n)))
    (hnone : YieldsAt (fun d => Recognizer.trivia d.rest = none) c o good (f none)) :
    YieldsAt (fun d => Recognizer.blanks d.rest = none) c o good (comment >>= f) := by
  intro s hs ho hblanks
  unfold Ends
  rw [bind_apply, comment_apply]
  cases hblock : Recognizer.blockComment s.cursor.rest with
  | some n => exact hsome _ (nodeRead_comment _ _ _) _ (hs.advance n) ho
  | none =>
    cases hline : Recognizer.lineComment s.cursor.rest with
    | some n => exact hsome _ (nodeRead_comment _ _ _) _ (hs.advance n) ho
    | none =>
      have htrivium : Recognizer.trivium s.cursor.rest = none := by
        simp only [Recognizer.trivium, Recognizer.orElse, hblanks, hblock, hline]
        rfl
      exact hnone s hs ho (Recognizer.trivia_eq_none_iff.mpr (Text.triviaLength_of_none htrivium))

theorem yields_assignment : Yields c o (NodeRead c o) assignment := by
  refine yields_here_bind fun _ _ => yields_after plain_variableName fun name => ?_
  refine yields_after plain_skipTrivia fun _ => yields_after (plain_expect _) fun _ => ?_
  refine yields_bind (yields_expression _) fun value hvalue => ?_
  refine yields_after (plain_flag _) fun _ => yields_pure (nodeRead_leaf rfl ?_)
  exact ⟨written_singleton hvalue, nofun, nofun⟩

namespace Directive

variable {good : α → Prop}

theorem yields_list {p : Production α} (h : Yields c o good p) :
    Yields c o (fun as => ∀ a ∈ as, good a) (list p) := by
  have hitem : Yields c o (fun r => ∀ a ∈ r.1, good a) (item p) := by
    refine yields_bind h fun a ha => yields_after plain_skipTrivia fun _ => ?_
    have hone : ∀ x ∈ [a], good x := by
      intro x hx
      rwa [List.mem_singleton.mp hx]
    refine yields_after (plain_passes _) fun _ => yields_ite (yields_pure hone) ?_
    exact yields_after (plain_expect _) fun _ => yields_pure hone
  refine yields_after (plain_expect _) fun _ => yields_after plain_skipTrivia fun _ => ?_
  refine yields_after (plain_passes _) fun _ => yields_ite (yields_pure nofun) ?_
  exact yields_unfold (fun _ => hitem) ()

theorem yields_parameter :
    Yields c o (fun p => ∀ e, p.default = some e → Written c o e) parameter := by
  refine yields_after plain_skipTrivia fun _ => yields_after plain_variableName fun name => ?_
  refine yields_after plain_skipTrivia fun _ => yields_after (plain_passes _) fun _ => ?_
  refine yields_ite (yields_bind (yields_expression _) fun value hvalue => yields_pure ?_) ?_
  · rintro e ⟨⟩
    exact hvalue
  · exact yields_pure nofun

theorem yields_inclusion (line : Nat) : Yields c o (NodeRead c o) (inclusion line) := by
  refine yields_after plain_skipTrivia fun _ => yields_after plain_identifier fun name => ?_
  refine yields_here_bind fun behind hbehind => yields_after plain_skipTrivia fun _ => ?_
  refine yields_after (plain_sees _) fun _ => yields_ite ?_ ?_
  · refine yields_bind (yields_list (yields_expression _)) fun es hes => yields_pure ?_
    exact nodeRead_leaf rfl ⟨hes, nofun, nofun⟩
  · refine yields_after (plain_moveTo hbehind) fun _ => yields_pure ?_
    exact nodeRead_leaf rfl ⟨nofun, nofun, nofun⟩

end Directive

/-! ### Statements with blocks -/

theorem nodeRead_branch {condition : Option Expression} {otherwise : Option Node}
    (hcondition : ∀ e, condition = some e → Written c o e)
    (hotherwise : ∀ n, otherwise = some n → NodeRead c o n) :
    ∀ k ∈ (NodeKind.branch condition otherwise).kinds, KindRead c o k := by
  have hself : KindRead c o (.branch condition otherwise) :=
    ⟨fun e he => hcondition e (Option.mem_toList.mp he), nofun, nofun⟩
  intro k hk
  cases otherwise with
  | none => rwa [List.mem_singleton.mp hk]
  | some n =>
    rcases List.mem_cons.mp hk with rfl | hk
    · exact hself
    · exact hotherwise n rfl k hk

theorem nodeRead_chain {alternatives : List Directive.Alternative}
    (h : ∀ a ∈ alternatives,
      (∀ e, a.condition = some e → Written c o e) ∧ ∀ n ∈ a.children, NodeRead c o n) :
    ∀ n, Directive.chain alternatives = some n → NodeRead c o n := by
  induction alternatives with
  | nil => exact nofun
  | cons a as ih =>
    rintro _ ⟨⟩
    obtain ⟨hcondition, hchildren⟩ := h a List.mem_cons_self
    have hrest := ih fun a ha => h a (List.mem_cons_of_mem _ ha)
    exact nodeRead_node (nodeRead_branch hcondition hrest) hchildren

section
variable {block : Production (List Node)}
  (hblock : Yields c o (fun ns => ∀ n ∈ ns, NodeRead c o n) block)
include hblock

namespace Directive

theorem yields_definition (line : Nat) : Yields c o (NodeRead c o) (definition block line) := by
  refine yields_after plain_skipTrivia fun _ => yields_after plain_identifier fun name => ?_
  refine yields_after plain_skipTrivia fun _ => yields_after (plain_sees _) fun _ => ?_
  have hrest : ∀ ps : List Parameter, (∀ p ∈ ps, ∀ e, p.default = some e → Written c o e) →
      Yields c o (NodeRead c o) (do
        let _ ← skipTrivia
        return ⟨.definition ⟨name, ps⟩, line, ← block⟩) := by
    intro ps hps
    refine yields_after plain_skipTrivia fun _ => yields_bind hblock fun ns hns => ?_
    refine yields_pure (nodeRead_of_kind rfl ⟨fun e he => ?_, nofun, nofun⟩ hns)
    obtain ⟨p, hp, he⟩ := List.mem_filterMap.mp he
    exact hps p hp e he
  exact yields_ite (yields_bind (yields_list yields_parameter) hrest) (hrest [] nofun)

theorem yields_alternative :
    Yields c o (fun r => ∀ a ∈ r.1,
      (∀ e, a.condition = some e → Written c o e) ∧ ∀ n ∈ a.children, NodeRead c o n)
      (alternative block) := by
  refine yields_here_bind fun start hstart => yields_after plain_skipTrivia fun _ => ?_
  refine yields_here_bind fun _ _ => yields_after (plain_keyword _) fun _ => yields_ite ?_ ?_
  · have hrest : ∀ condition : Option Expression, (∀ e, condition = some e → Written c o e) →
        ∀ line : Nat, Yields c o (fun r : List Alternative × Option Unit => ∀ a ∈ r.1,
          (∀ e, a.condition = some e → Written c o e) ∧ ∀ n ∈ a.children, NodeRead c o n) (do
          let _ ← skipTrivia
          let children ← block
          return ([⟨condition, line, children⟩], if condition.isSome then some () else none)) := by
      intro condition hcondition line
      refine yields_after plain_skipTrivia fun _ => yields_bind hblock fun ns hns => yields_pure ?_
      intro a ha
      rw [List.mem_singleton.mp ha]
      exact ⟨hcondition, hns⟩
    refine yields_after plain_skipTrivia fun _ => yields_after (plain_keyword _) fun _ => ?_
    refine yields_ite (yields_bind (yields_some_expression _) fun condition h => ?_) ?_
    · exact hrest condition h _
    · exact hrest none nofun _
  · exact yields_after (plain_moveTo hstart) fun _ => yields_pure nofun

theorem yields_branch (line : Nat) : Yields c o (NodeRead c o) (branch block line) := by
  refine yields_bind (yields_expression _) fun condition hcondition => ?_
  refine yields_after plain_skipTrivia fun _ => yields_bind hblock fun ns hns => ?_
  refine yields_bind (yields_unfold (fun _ => yields_alternative hblock) ()) fun as has => ?_
  refine yields_pure (nodeRead_node (nodeRead_branch ?_ (nodeRead_chain has)) hns)
  rintro _ ⟨⟩
  exact hcondition

theorem yields_loop (line : Nat) : Yields c o (NodeRead c o) (loop block line) := by
  refine yields_bind (yields_expression _) fun condition hcondition => ?_
  refine yields_after plain_skipTrivia fun _ => yields_bind hblock fun ns hns => ?_
  exact yields_pure (nodeRead_of_kind rfl ⟨written_singleton hcondition, nofun, nofun⟩ hns)

theorem yields_atRule (name : Text) (line : Nat) :
    Yields c o (NodeRead c o) (atRule block name line) := by
  refine yields_bind yields_value fun value hvalue => yields_here_bind fun behind hbehind => ?_
  have hkind : KindRead c o (.atRule name value) := by
    refine ⟨nofun, nofun, ?_⟩
    rintro _ text ⟨⟩
    exact hvalue text rfl
  refine yields_after plain_skipTrivia fun _ => yields_after (plain_sees _) fun _ => ?_
  refine yields_ite
    (yields_bind hblock fun ns hns => yields_pure (nodeRead_of_kind rfl hkind hns)) ?_
  exact yields_after (plain_moveTo hbehind) fun _ => yields_pure (nodeRead_leaf rfl hkind)

end Directive

theorem yields_directive : Yields c o (NodeRead c o) (directive block) := by
  refine yields_here_bind fun _ _ => yields_after (plain_expect _) fun _ => ?_
  refine yields_after plain_identifier fun name => ?_
  split
  · exact Directive.yields_definition hblock _
  · exact Directive.yields_inclusion _
  · exact Directive.yields_branch hblock _
  · exact yields_throw _
  · exact Directive.yields_loop hblock _
  · refine yields_bind (yields_expression _) fun value hvalue => yields_pure (nodeRead_leaf rfl ?_)
    exact ⟨written_singleton hvalue, nofun, nofun⟩
  · refine yields_bind (yields_expression _) fun value hvalue => yields_pure (nodeRead_leaf rfl ?_)
    exact ⟨written_singleton hvalue, nofun, nofun⟩
  · exact Directive.yields_atRule hblock _ _

theorem yields_declarationValue (name : Text) (line : Nat) (spaced : Bool) :
    Yields c o (NodeRead c o) (declarationValue block name line spaced) := by
  have hrest : ∀ value : Option Expression, (∀ e, value = some e → Written c o e) →
      Yields c o (NodeRead c o) (do
        let important ← flag .important
        let behind ← here
        let _ ← skipTrivia
        if ← sees (char '{') then
          unless spaced do
            fail "\";\""
          return ⟨.property name value important, line, ← block⟩
        else
          moveTo behind
          return .leaf (.property name value important) line) := by
    intro value hvalue
    have hkind : ∀ important, KindRead c o (.property name value important) :=
      fun _ => ⟨fun e he => hvalue e (Option.mem_toList.mp he), nofun, nofun⟩
    refine yields_after (plain_flag _) fun important => yields_here_bind fun behind hbehind => ?_
    refine yields_after plain_skipTrivia fun _ => yields_after (plain_sees _) fun _ => ?_
    refine yields_ite (yields_check _ (yields_bind hblock fun ns hns => ?_)) ?_
    · exact yields_pure (nodeRead_of_kind rfl (hkind _) hns)
    · exact yields_after (plain_moveTo hbehind) fun _ => yields_pure (nodeRead_leaf rfl (hkind _))
  refine yields_after (plain_andM (plain_pure _) (plain_sees _)) fun _ => yields_ite ?_ ?_
  · exact hrest none nofun
  · exact yields_bind (yields_some_expression _) hrest

theorem yields_declaration : Yields c o (NodeRead c o) (declaration block) := by
  have hstart : Plain c here := plain_here_bind fun _ _ => plain_pure _
  refine yields_after (plain_during _ hstart) fun start => ?_
  refine yields_after (plain_during _ (plain_passes _)) fun marked => ?_
  refine yields_after (plain_during _ (plain_declarationName _)) fun name => ?_
  refine yields_after (plain_during _ plain_skipTrivia) fun spaced => ?_
  refine yields_after (plain_during _ (plain_sees _)) fun named => ?_
  exact yields_during _ (yields_declarationValue hblock _ _ _)

/-- A ruleset begins where neither white space nor a comment does. -/
theorem yieldsAt_ruleset :
    YieldsAt (fun d => Recognizer.trivia d.rest = none) c o (NodeRead c o) (ruleset block) := by
  intro s hs ho htrivia
  show Ends (Selector.groupText >>= fun selector => skipTrivia >>= fun _ => block >>= fun ns =>
    (pure ⟨.ruleset selector, s.cursor.line, ns⟩ : Production Node)) s _ _
  refine ends_bind.mpr ((ends_groupText hs ho htrivia).mono ?_ fun _ _ h => h)
  rintro selector t ⟨⟨ht, ho⟩, hselector⟩
  have hkind : KindRead c o (.ruleset selector) := by
    refine ⟨nofun, ?_, nofun⟩
    rintro _ ⟨⟩
    exact ⟨s, hselector⟩
  have hrest : Yields c o (NodeRead c o) (skipTrivia >>= fun _ => block >>= fun ns =>
      pure ⟨.ruleset selector, s.cursor.line, ns⟩) :=
    yields_after plain_skipTrivia fun _ => yields_bind hblock fun ns hns =>
      yields_pure (nodeRead_of_kind rfl hkind hns)
  exact hrest t ht ho

theorem yieldsAt_declarationOrRuleset :
    YieldsAt (fun d => Recognizer.trivia d.rest = none) c o (NodeRead c o)
      (declarationOrRuleset block) := by
  intro s hs ho htrivia
  have hdeclaration := yields_declaration hblock s hs ho
  -- However the attempt ends, giving it up goes back to where it started.
  have hretry : ∀ t : State, t.options = o →
      Ends (ruleset block) (t.giveUp s) (fun n u => (c.Before u.cursor ∧ u.options = o) ∧
        NodeRead c o n) (fun _ u => c.Before u.cursor ∧ u.options = o) :=
    fun t ht => yieldsAt_ruleset hblock (t.giveUp s) hs ht htrivia
  unfold Ends at hdeclaration hretry ⊢
  unfold declarationOrRuleset
  cases hattempt : declaration block s with
  | ok n t =>
    rw [hattempt] at hdeclaration
    by_cases hend : t.atEndOfDeclaration = true
    · simp only [if_pos hend]
      exact hdeclaration
    · simp only [if_neg hend]
      exact hretry t hdeclaration.1.2
  | error e t =>
    rw [hattempt] at hdeclaration
    have hruleset := hretry t hdeclaration.2
    cases hresult : ruleset block (t.giveUp s) with
    | ok n u =>
      rw [hresult] at hruleset
      simp only [hresult]
      exact hruleset
    | error e u =>
      rw [hresult] at hruleset
      simp only [hresult]
      exact hruleset

theorem yieldsAt_statement :
    YieldsAt (fun d => Recognizer.trivia d.rest = none) c o (NodeRead c o) (statement block) := by
  refine yieldsAt_still (still_sees _) fun _ => yieldsAt_ite yields_assignment.at ?_
  refine yieldsAt_still (still_sees _) fun _ => ?_
  exact yieldsAt_ite (yields_directive hblock).at (yieldsAt_declarationOrRuleset hblock)

theorem yields_listStep (nested : Bool) :
    Yields c o (fun r => ∀ n ∈ r.1, NodeRead c o n) (listStep block nested) := by
  have hone : ∀ {n : Node}, NodeRead c o n → ∀ m ∈ [n], NodeRead c o m := by
    intro n hn m hm
    rwa [List.mem_singleton.mp hm]
  refine yields_passes_blanks fun _ => yieldsAt_still (still_listEnds _) fun _ => ?_
  refine yieldsAt_ite (yields_pure nofun).at (yieldsAt_passes (yields_pure nofun) ?_)
  refine yieldsAt_comment (fun n hn => yields_pure (hone hn)) ?_
  refine yieldsAt_bind (yieldsAt_statement hblock) fun n hn => ?_
  refine yields_get_bind fun t => yields_ite (yields_pure (hone hn)) ?_
  refine yields_after plain_skipTrivia fun _ => ?_
  refine yields_after (plain_orM (plain_passes _) (plain_listEnds _)) fun _ => ?_
  exact yields_check _ (yields_pure (hone hn))

theorem yields_blockBy : Yields c o (fun ns => ∀ n ∈ ns, NodeRead c o n) (blockBy block) := by
  refine yields_after (plain_expect _) fun _ => ?_
  refine yields_bind (yields_unfold (fun _ => yields_listStep hblock true) ()) fun ns hns => ?_
  refine yields_after (plain_expect _) fun _ s hs ho => ?_
  exact ⟨⟨hs, ho⟩, hns⟩

end

theorem yields_block : Yields c o (fun ns => ∀ n ∈ ns, NodeRead c o n) block :=
  yields_recurse (yields_fail _) fun _ => yields_blockBy

theorem yields_document : Yields c o (NodeRead c o) document := by
  refine yields_here_bind fun _ _ => ?_
  refine yields_bind (yields_unfold (fun _ => yields_listStep yields_block false) ())
    fun ns hns => ?_
  exact yields_pure (nodeRead_of_kind rfl ⟨nofun, nofun, nofun⟩ hns)

end Grammar

open Grammar

/-- **What a document keeps of its text was read from there.** -/
theorem nodeRead_of_parse {source : Text} {options : Options} {tree : Node}
    (h : (parse source options).result = .ok tree) :
    NodeRead (.start source options.line 0) options tree := by
  have hends := yields_document (.start source options) (.refl _) rfl
  unfold parse at h
  cases hdocument : document (.start source options) with
  | error e s =>
    simp only [hdocument] at h
    cases h
  | ok node s =>
    simp only [hdocument] at h
    cases h
    exact (hends.of_ok hdocument).2

/-- **Every expression of a document was taken by a lexer from its text.** -/
theorem written_of_parse {source : Text} {options : Options} {tree : Node}
    (h : (parse source options).result = .ok tree) :
    ∀ e ∈ tree.expressions, Written (.start source options.line 0) options e := by
  intro e he
  obtain ⟨k, hk, he⟩ := Node.exists_kind he
  exact (nodeRead_of_parse h k hk).expressions e he

/-! ### Interpolations in a document -/

/-- A run of selector tokens is what its lexer took. -/
theorem takeUntil_of_run {s t : State} (h : Selector.run s = .ok true t) :
    ∃ tokens l, Lexer.takeUntil Token.isOperator (.ofCursor s.cursor s.options) = .ok tokens l ∧
      t.cursor = l.front := by
  rw [Selector.run_apply] at h
  unfold lexing at h
  cases hlexer : Lexer.takeUntil Token.isOperator (.ofCursor s.cursor s.options) with
  | error e l =>
    rw [hlexer] at h
    cases h
  | ok tokens l =>
    simp only [hlexer] at h
    split at h
    · cases h
    · cases h
      exact ⟨tokens, l, rfl, rfl⟩

/-- **What is left open inside interpolations.**  Behind an expression no string waits to go on, and
the interpolations that its tokens opened are closed again unless a semicolon, a brace, a flag or
the end of the text ended it inside them.  A run of selector tokens opens nothing but the
interpolation that cuts its last string short.  The expressions of a document are such
expressions. -/
theorem interpolations_left_open (source : Text) (options : Options) :
    (∀ (stop : Stop) (s t : State) (e : Expression), expression stop s = .ok e t →
      ∃ l, Lexer.collectUntil (Nesting.after stop) {}
          (.ofCursor (s.cursor.skip Recognizer.trivia) s.options) = .ok e.tokens l ∧
        t.cursor = l.front ∧ LeavesOpen e.tokens l) ∧
    (∀ s t : State, Selector.run s = .ok true t →
      ∃ tokens l, Lexer.takeUntil Token.isOperator (.ofCursor s.cursor s.options) = .ok tokens l ∧
        t.cursor = l.front ∧ LeavesSegment tokens l) ∧
    ∀ tree, (parse source options).result = .ok tree → ∀ e ∈ tree.expressions,
      ∃ stop d l, (Cursor.start source options.line 0).Before d ∧
        Lexer.collectUntil (Nesting.after stop) {} (.ofCursor d options) = .ok e.tokens l ∧
        e.text = l.previousEnd.textSince d ∧ LeavesOpen e.tokens l := by
  refine ⟨?_, ?_, ?_⟩
  · intro stop s t e h
    obtain ⟨l, hlexer, _, _, hfront⟩ := written_of_expression h
    exact ⟨l, hlexer, hfront, leavesOpen_of_collectUntil hlexer⟩
  · intro s t h
    obtain ⟨tokens, l, hlexer, hfront⟩ := takeUntil_of_run h
    exact ⟨tokens, l, hlexer, hfront, leavesSegment_of_takeUntil hlexer⟩
  · intro tree h e he
    obtain ⟨stop, d, l, hd, hlexer, htext, _⟩ := written_of_parse h e he
    exact ⟨stop, d, l, hd, hlexer, htext, leavesOpen_of_collectUntil hlexer⟩

theorem exists_of_parse {source : Text} {options : Options} {p : Node → Bool}
    (h : (match (parse source options).result with
      | .ok tree => p tree
      | .error _ => false) = true) : ∃ tree, (parse source options).result = .ok tree ∧
      p tree = true := by
  split at h
  · next tree htree => exact ⟨tree, htree, h⟩
  · cases h

/-- An interpolation inside a string, closed again. -/
theorem interpolations_left_open_string :
    ∃ tree, (parse "$x: \"a#\x7bb\x7d\";".toList).result = .ok tree ∧
      ∃ e ∈ tree.expressions, ∃ stop d l,
      (Cursor.start "$x: \"a#\x7bb\x7d\";".toList 1 0).Before d ∧
        Lexer.collectUntil (Nesting.after stop) {} (.ofCursor d {}) = .ok e.tokens l ∧
        e.text = l.previousEnd.textSince d ∧ LeavesOpen e.tokens l := by
  obtain ⟨tree, htree, hsome⟩ : ∃ tree, (parse "$x: \"a#\x7bb\x7d\";".toList).result = .ok tree ∧
      !tree.expressions.isEmpty :=
    exists_of_parse (by decide +kernel)
  obtain ⟨e, es, hes⟩ : ∃ e es, tree.expressions = e :: es := by
    cases h : tree.expressions with
    | nil => rw [h] at hsome; cases hsome
    | cons e es => exact ⟨e, es, rfl⟩
  have he : e ∈ tree.expressions := hes ▸ List.mem_cons_self
  exact ⟨tree, htree, e, he, (interpolations_left_open _ {}).2.2 tree htree e he⟩

/-- A semicolon ends an expression inside an interpolation, and the document has more openings than
closings. -/
theorem semicolon_in_interpolation :
    ∃ tree, (parse "$x: #\x7bb;".toList).result = .ok tree ∧
      ∃ e ∈ tree.expressions, Token.opened e.tokens = 1 ∧ Token.closed e.tokens = 0 := by
  obtain ⟨tree, htree, hsome⟩ : ∃ tree, (parse "$x: #\x7bb;".toList).result = .ok tree ∧
      tree.expressions.any fun e => Token.opened e.tokens = 1 ∧ Token.closed e.tokens = 0 :=
    exists_of_parse (by decide +kernel)
  obtain ⟨e, he, hopen⟩ := List.any_eq_true.mp hsome
  exact ⟨tree, htree, e, he, of_decide_eq_true hopen⟩

end Stylesheet
