import Stylesheet.Proofs.Ordering
import Stylesheet.Proofs.TextWarnings

/-!
# The warnings of a document

A production takes over the warnings of the lexers that it runs, and gives them up with the text
that it gives up.  `Reports` says of a production what the warnings that it adds account for
(`Accounts`): those of the tokens in the expressions of its answer are among them, once each and in
the order of the text, and there are no others if the texts that are kept without their tokens give
none.  These texts are the selectors, the names of properties and the arguments of general
directives (`NodeKind.marks`).  So the warnings of a text are those of its document
(`warnings_of_parse`).

Nothing more is known of the texts kept without their tokens than that they are `Bare`.  That they
have no mark of a legacy variable is not enough: a special function in one of them may read past its
end, and warn of what stands behind it (`warns_of_comment`).
-/
namespace Stylesheet

open Lexer (Bare)

/-! ### What a document holds, in the order of its text -/

section
variable {β : Type} (own : NodeKind → List β)

mutual

/-- What the kinds of a node hold, in the order of its text: its own kind, those of the nodes below
it and those of the branches behind it. -/
def Node.gather : Node → List β
  | ⟨kind, _, children⟩ => own kind ++ (Node.gatherFrom children ++ kind.gatherBehind)

/-- What the kinds of the branches behind a branch hold. -/
def NodeKind.gatherBehind : NodeKind → List β
  | .branch _ (some otherwise) => otherwise.gather
  | _ => []

/-- What the kinds of some nodes hold. -/
def Node.gatherFrom : List Node → List β
  | [] => []
  | n :: ns => n.gather ++ Node.gatherFrom ns

end

theorem Node.gatherFrom_append (ns ms : List Node) :
    Node.gatherFrom own (ns ++ ms) = Node.gatherFrom own ns ++ Node.gatherFrom own ms := by
  induction ns with
  | nil => rw [List.nil_append, Node.gatherFrom, List.nil_append]
  | cons n ns ih => rw [List.cons_append, Node.gatherFrom, Node.gatherFrom, ih, List.append_assoc]

theorem Node.gatherFrom_singleton (n : Node) : Node.gatherFrom own [n] = n.gather own := by
  rw [Node.gatherFrom, Node.gatherFrom, List.append_nil]

theorem NodeKind.gatherBehind_branch (condition : Option Expression) (otherwise : Option Node) :
    (NodeKind.branch condition otherwise).gatherBehind own =
      otherwise.elim [] (Node.gather own) := by
  cases otherwise <;> rw [NodeKind.gatherBehind] <;> simp

theorem NodeKind.gatherBehind_of_ne {kind : NodeKind}
    (h : ∀ condition otherwise, kind ≠ .branch condition otherwise) :
    kind.gatherBehind own = [] := by
  rw [NodeKind.gatherBehind]
  exact fun condition otherwise => h condition (some otherwise)

/-- What a branch without what follows it holds. -/
def Grammar.Directive.Alternative.gather (a : Alternative) : List β :=
  own (.branch a.condition none) ++ Node.gatherFrom own a.children

open Grammar.Directive in
/-- What a chain holds is what its branches hold. -/
theorem NodeKind.gatherBehind_chain (hown : ∀ condition otherwise,
      own (.branch condition otherwise) = own (.branch condition none))
    (condition : Option Expression) (as : List Alternative) :
    (NodeKind.branch condition (chain as)).gatherBehind own =
      as.flatMap (Alternative.gather own) := by
  rw [gatherBehind_branch]
  induction as with
  | nil => rfl
  | cons a as ih =>
    rw [chain_cons, Option.elim_some, Node.gather, gatherBehind_branch, ih, List.flatMap_cons,
      Alternative.gather, hown, List.append_assoc]

end

/-- The texts that a kind of node keeps without their tokens: a selector, the name of a property or
the argument of a general directive. -/
def NodeKind.marks : NodeKind → List Text
  | .ruleset selector => [selector]
  | .property name _ _ => [name]
  | .atRule _ value => value.toList
  | _ => []

/-- The texts that a document keeps without their tokens. -/
def Node.marks (n : Node) : List Text :=
  n.gather NodeKind.marks

/-- The expressions of a document, in the order of its text. -/
def Node.inOrder (n : Node) : List Expression :=
  n.gather NodeKind.ownExpressions

/-- The warnings that belong to an expression. -/
def Expression.deprecations (file : Option String) (e : Expression) : List Deprecation :=
  Token.deprecationsOf file e.tokens

/-- The warnings that belong to the expressions of a document. -/
def Node.deprecations (file : Option String) (n : Node) : List Deprecation :=
  n.inOrder.flatMap (Expression.deprecations file)

mutual

/-- In the order of the text every expression of a node is there as often as it is there at all. -/
theorem Node.inOrder_perm : ∀ n : Node, (n.gather NodeKind.ownExpressions).Perm n.expressions
  | ⟨kind, _, children⟩ => by
    rw [Node.gather, Node.expressions]
    refine .trans ?_ ((NodeKind.inOrder_perm kind).append_right _)
    rw [List.append_assoc]
    refine .append_left _ (.trans List.perm_append_comm ?_)
    exact .append_left _ (Node.inOrder_perm_of children)

theorem NodeKind.inOrder_perm : ∀ kind : NodeKind,
    (kind.ownExpressions ++ kind.gatherBehind NodeKind.ownExpressions).Perm kind.expressions
  | .branch condition (some otherwise) => by
    rw [NodeKind.gatherBehind, NodeKind.expressions]
    exact .append_left _ (Node.inOrder_perm otherwise)
  | .branch condition none => by
    rw [NodeKind.gatherBehind, List.append_nil, NodeKind.expressions]
    · exact .refl _
    · exact nofun
  | .root | .atRule .. | .ruleset _ | .comment .. | .property .. | .definition
      _ | .inclusion .. | .assignment ..
  | .debug _ | .warn _ | .loop _ => by
    rw [NodeKind.gatherBehind, List.append_nil]
    · exact .refl _
    · exact nofun

theorem Node.inOrder_perm_of : ∀ ns : List Node,
    (Node.gatherFrom NodeKind.ownExpressions ns).Perm (Node.expressionsOf ns)
  | [] => by
    rw [Node.gatherFrom, Node.expressionsOf]
  | n :: ns => by
    rw [Node.gatherFrom, Node.expressionsOf]
    exact (Node.inOrder_perm n).append (Node.inOrder_perm_of ns)

end

/-! ### Accounting for warnings -/

/-- Warnings that account for some expressions and for some texts kept without their tokens: those
of the expressions are among them in their order, and if none of the texts gives any, they are
all. -/
structure Accounts (c : Cursor) (o : Options) (es : List Expression) (marks : List Text)
    (ws : List Deprecation) : Prop where
  kept : (o.reported (es.flatMap (Expression.deprecations o.filename))).Sublist ws
  all : (∀ t ∈ marks, Bare c o t) →
    ws = o.reported (es.flatMap (Expression.deprecations o.filename))

namespace Accounts

variable {c : Cursor} {o : Options} {es es' : List Expression} {marks marks' : List Text}
  {ws ws' : List Deprecation}

theorem nil : Accounts c o [] [] [] where
  kept := by rw [List.flatMap_nil, Options.reported_nil]
  all _ := by rw [List.flatMap_nil, Options.reported_nil]

theorem append (h : Accounts c o es marks ws) (h' : Accounts c o es' marks' ws') :
    Accounts c o (es ++ es') (marks ++ marks') (ws ++ ws') where
  kept := by
    rw [List.flatMap_append, Options.reported_append]
    exact h.kept.append h'.kept
  all hbare := by
    rw [List.flatMap_append, Options.reported_append,
      h.all fun t ht => hbare t (List.mem_append_left _ ht),
      h'.all fun t ht => hbare t (List.mem_append_right _ ht)]

/-- The warnings of an expression are all its own. -/
theorem expression (e : Expression) :
    Accounts c o [e] [] (o.reported (e.deprecations o.filename)) where
  kept := by rw [List.flatMap_singleton]
  all _ := by rw [List.flatMap_singleton]

/-- The warnings of a text that is kept without its tokens. -/
theorem mark {t : Text} (h : Bare c o t → ws = []) : Accounts c o [] [t] ws where
  kept := by
    rw [List.flatMap_nil, Options.reported_nil]
    exact List.nil_sublist ws
  all hbare := by
    rw [List.flatMap_nil, Options.reported_nil]
    exact h (hbare t List.mem_cons_self)

end Accounts

namespace Grammar

variable {ε α β : Type} {c : Cursor} {o : Options} {s t : State}

/-! ### Productions by what they report -/

/-- A production that starts ahead of a place ends ahead of the place, and what is said of its
answer and of the warnings it adds holds. -/
def Reports (c : Cursor) (o : Options) (good : α → List Deprecation → Prop)
    (p : EStateM ε State α) : Prop :=
  ∀ s, c.Before s.cursor → s.options = o →
    Ends p s (fun a t => Gains c o s t (good a)) (fun _ t => Lapsed o s t)

section
variable {good : α → List Deprecation → Prop} {good' : β → List Deprecation → Prop}

/-- What follows in a later state, of which it is known which warnings came since an earlier one. -/
theorem Gains.ends {known : List Deprecation → Prop} (h : Gains c o s t known)
    {p : EStateM ε State α}
    (hp : ∀ ws, known ws → Reports c o (fun a ws' => good a (ws ++ ws')) p) :
    Ends p t (fun a u => Gains c o s u (good a)) (fun _ u => Lapsed o s u) := by
  obtain ⟨ahead, options, ws, hws, hquiet, hknown⟩ := h
  have hsince : Gains c o s t (· = ws) := ⟨ahead, options, ws, hws, hquiet, rfl⟩
  refine (hp ws hknown t ahead options).mono (fun a u hu => ?_) fun _ _ hu => hsince.lapse hu
  exact hsince.trans fun _ hsame => hsame ▸ hu

theorem reports_pure {a : α} (h : good a []) : Reports c o good (pure a : EStateM ε State α) :=
  fun _ hs ho => ⟨hs, ho, [], (List.append_nil _).symm, fun _ => rfl, h⟩

theorem reports_throw (e : ε) : Reports c o good (throw e : EStateM ε State α) :=
  fun _ _ ho => ⟨ho, fun _ => rfl⟩

theorem reports_fail (expected : String) : Reports c o good (fail expected : Production α) :=
  fun _ _ ho => ⟨ho, fun _ => rfl⟩

theorem reports_bind {p : EStateM ε State α} {f : α → EStateM ε State β} (hp : Reports c o good p)
    (hf : ∀ a ws, good a ws → Reports c o (fun b ws' => good' b (ws ++ ws')) (f a)) :
    Reports c o good' (p >>= f) := by
  intro s hs ho
  exact ends_bind.mpr ((hp s hs ho).mono (fun a _ ht => ht.ends (hf a)) fun _ _ h => h)

theorem Reports.mono {good' : α → List Deprecation → Prop} {p : EStateM ε State α}
    (h : Reports c o good p) (hgood : ∀ a ws, good a ws → good' a ws) : Reports c o good' p :=
  fun s hs ho => (h s hs ho).mono (fun a _ ht => ht.mono (hgood a)) fun _ _ h => h

/-- What follows a production that warns of nothing. -/
theorem reports_after {p : EStateM ε State β} {f : β → EStateM ε State α} (hp : ∀ d, Plain d p)
    (hmute : Mute p) (hf : ∀ b, Reports c o good (f b)) : Reports c o good (p >>= f) := by
  intro s hs ho
  refine Still.ends_bind (.refl s) ho hp hmute fun b t ht => (ht.gains hs ho).ends fun ws hws => ?_
  subst hws
  exact hf b

/-- What an answer is made into. -/
theorem reports_map {g : α → β} {p : EStateM ε State α} (h : Reports c o good p)
    (hg : ∀ a ws, good a ws → good' (g a) ws) : Reports c o good' (p >>= fun a => pure (g a)) :=
  reports_bind h fun a ws ha => reports_pure (by rw [List.append_nil]; exact hg a ws ha)

theorem reports_here_bind {f : Cursor → Production α}
    (h : ∀ d, c.Before d → Reports c o good (f d)) : Reports c o good (here >>= f) :=
  fun s hs ho => h s.cursor hs s hs ho

theorem reports_get_bind {f : State → Production α} (h : ∀ t, Reports c o good (f t)) :
    Reports c o good (get >>= f) :=
  fun s hs ho => h s s hs ho

theorem reports_moveTo_bind {d : Cursor} {f : Unit → Production α} (hd : c.Before d)
    (hf : Reports c o good (f ())) : Reports c o good (moveTo d >>= f) := by
  intro s _ ho
  refine (hf { s with cursor := d } hd ho).mono (fun _ _ h => ?_) fun _ _ h => ⟨h.options, h.quiet⟩
  exact ⟨h.ahead, h.options, h.warnings⟩

theorem reports_ite {P : Prop} [Decidable P] {p q : EStateM ε State α} (hp : Reports c o good p)
    (hq : Reports c o good q) : Reports c o good (if P then p else q) := by
  split
  · exact hp
  · exact hq

theorem reports_check {P : Prop} [Decidable P] {f : Unit → Production α} (expected : String)
    (h : Reports c o good (f ())) : Reports c o good (if P then f () else fail expected >>= f) :=
  reports_ite h fun _ _ ho => ⟨ho, fun _ => rfl⟩

/-- A loop adds what its rounds add, one after the other. -/
theorem reports_unfold {good : List α → List Deprecation → Prop}
    {step : β → EStateM ε State (List α × Option β)} (hnil : good [] [])
    (h : ∀ found ws, good found ws → ∀ b,
      Reports c o (fun r ws' => good (found ++ r.1) (ws ++ ws')) (step b))
    (b : β) : Reports c o good (unfold State.size step b) := by
  intro s hs ho
  refine Ends.unfold (fun found _ t => Gains c o s t (good found)) ?_
    ⟨hs, ho, [], (List.append_nil _).symm, fun _ => rfl, hnil⟩
  intro found b t ht
  have hround :
      Ends (step b) t (fun r u => Gains c o s u (good (found ++ r.1))) (fun _ u => Lapsed o s u) :=
    ht.ends fun ws hws => h found ws hws b
  refine hround.mono ?_ fun _ _ hu => hu
  rintro ⟨now, next⟩ u hboth
  cases next with
  | none => exact hboth
  | some b' =>
    simp only
    split <;> exact hboth

theorem reports_recurse {stuck : EStateM ε State α} {rule : EStateM ε State α → EStateM ε State α}
    (hstuck : Reports c o good stuck)
    (hrule : ∀ p, Reports c o good p → Reports c o good (rule p)) :
    Reports c o good (recurse State.size stuck rule) := by
  intro s hs ho
  refine Ends.recurse (fun t => c.Before t.cursor ∧ t.options = o) (fun t ht => hstuck t ht.1 ht.2)
    (fun p hp t ht => ?_) ⟨hs, ho⟩
  exact hrule p (fun u hu ho => hp u ⟨hu, ho⟩) t ht.1 ht.2

end

/-! ### Expressions and texts -/

/-- An expression adds the warnings of its tokens, and there are none if its text gives none. -/
theorem gains_of_expression {stop : Stop} {e : Expression} (hs : c.Before s.cursor)
    (h : expression stop s = .ok e t) :
    Gains c s.options s t fun ws => ws = s.options.reported (e.deprecations s.options.filename) ∧
      (Bare c s.options e.text → e.deprecations s.options.filename = []) := by
  have hkept : Kept c s t := ((plain_expression stop s hs).of_ok h).1
  rw [expression_apply] at h
  simp only at h
  split at h
  · cases h
  · next tokens l hlexer =>
    obtain ⟨hwarnings, behind, -, -, hend, hbare⟩ := Lexer.told_of_collectUntil (hs.skip _) hlexer
    split at h
    · cases h
    · next hne =>
      cases h
      refine ⟨hkept.ahead, hkept.options, _, congrArg (s.warnings ++ ·) hwarnings,
        reported_of_quiet, rfl, ?_⟩
      intro htext
      refine hbare ?_
      rwa [← hend fun hnil => hne (List.isEmpty_iff.mpr hnil)]

/-- Where no expression can be read, nothing is added. -/
theorem still_of_expression {stop : Stop} {e : SyntaxError} (hs : c.Before s.cursor)
    (h : expression stop s = .error e t) : t.options = s.options ∧ t.warnings = s.warnings := by
  rw [expression_apply] at h
  simp only at h
  split at h
  · cases h
    exact ⟨rfl, rfl⟩
  · next tokens l hlexer =>
    obtain ⟨hwarnings, -⟩ := Lexer.told_of_collectUntil (hs.skip _) hlexer
    split at h
    · next hempty =>
      cases h
      refine ⟨rfl, ?_⟩
      rw [List.isEmpty_iff.mp hempty, Token.deprecationsOf, Options.reported_nil] at hwarnings
      show s.warnings ++ l.warnings = s.warnings
      rw [hwarnings, List.append_nil]
    · cases h

theorem reports_expression (stop : Stop) :
    Reports c o (fun e ws => Accounts c o [e] [] ws) (expression stop) := by
  rintro s hs rfl
  unfold Ends
  cases hrun : expression stop s with
  | ok e t =>
    refine (gains_of_expression hs hrun).mono ?_
    rintro _ ⟨rfl, -⟩
    exact .expression e
  | error e t =>
    obtain ⟨hoptions, hwarnings⟩ := still_of_expression hs hrun
    exact ⟨hoptions, fun _ => hwarnings⟩

theorem reports_some_expression (stop : Stop) :
    Reports c o (fun v ws => Accounts c o v.toList [] ws) (some <$> expression stop) :=
  reports_map (reports_expression stop) fun _ _ he => he

/-- The text of a group of selectors is a text that is kept. -/
theorem reports_groupText :
    Reports c o (fun text ws => Accounts c o [] [text] ws) Selector.groupText := by
  intro s hs ho
  show Ends (Selector.group >>= _) s _ _
  refine ends_bind.mpr ((Selector.covers_group s hs ho).mono (fun _ t ht => ?_) fun _ _ h => h)
  exact ht.gains.mono fun ws hws => .mark fun hbare => hws hbare.of_trim

/-- The name of a property is a text that is kept, with what stands before it from a certain place
on. -/
theorem reports_declarationName {start : Cursor} (hstart : start.Before s.cursor)
    (hs : c.Before s.cursor) (ho : s.options = o) :
    Ends (do
      propertyName
      let name := (← here).textSince start
      let _ ← skipTrivia
      expect ':'
      return name) s (fun name t => Gains c o s t fun ws => Accounts c o [] [name] ws)
        (fun _ t => Lapsed o s t) := by
  refine ends_bind.mpr ((covers_propertyName s hs ho).mono (fun _ t ht => ?_) fun _ _ h => h)
  have hname : Gains c o s t fun ws => Accounts c o [] [t.cursor.textSince start] ws :=
    ht.gains.mono fun ws hws => .mark fun hbare =>
      hws (hbare.mono (hstart.infix_textSince ht.forward (.refl _)))
  have hrest : Reports c o (fun name ws => name = t.cursor.textSince start ∧ ws = []) (do
      let _ ← skipTrivia
      expect ':'
      return t.cursor.textSince start) :=
    reports_after (fun _ => plain_skipTrivia) mute_skipTrivia fun _ =>
      reports_after (fun _ => plain_expect _) (mute_expect _) fun _ => reports_pure ⟨rfl, rfl⟩
  refine (hrest t ht.gains.ahead ht.gains.options).mono (fun name u hu => ?_) fun _ _ hu =>
    hname.lapse hu
  refine hname.trans fun ws hws => hu.mono ?_
  rintro _ ⟨rfl, rfl⟩
  rwa [List.append_nil]

/-! ### Nodes -/

/-- Warnings that account for a node. -/
abbrev AccountsNode (c : Cursor) (o : Options) (n : Node) (ws : List Deprecation) : Prop :=
  Accounts c o (n.gather NodeKind.ownExpressions) (n.gather NodeKind.marks) ws

/-- Warnings that account for some nodes. -/
abbrev AccountsNodes (c : Cursor) (o : Options) (ns : List Node) (ws : List Deprecation) : Prop :=
  Accounts c o (Node.gatherFrom NodeKind.ownExpressions ns) (Node.gatherFrom NodeKind.marks ns) ws

section
variable {ns ms : List Node} {ws ws' : List Deprecation} {line : Nat}

theorem AccountsNodes.append (h : AccountsNodes c o ns ws) (h' : AccountsNodes c o ms ws') :
    AccountsNodes c o (ns ++ ms) (ws ++ ws') := by
  rw [AccountsNodes, Node.gatherFrom_append, Node.gatherFrom_append]
  exact Accounts.append h h'

theorem AccountsNode.singleton {n : Node} (h : AccountsNode c o n ws) :
    AccountsNodes c o [n] ws := by
  rwa [AccountsNodes, Node.gatherFrom_singleton, Node.gatherFrom_singleton]

theorem accountsNodes_nil : AccountsNodes c o [] [] := by
  rw [AccountsNodes, Node.gatherFrom, Node.gatherFrom]
  exact .nil

theorem accounts_node (kind : NodeKind)
    (hbranch : ∀ condition otherwise, kind ≠ .branch condition otherwise)
    (hkind : Accounts c o kind.ownExpressions kind.marks ws) (hns : AccountsNodes c o ns ws') :
    AccountsNode c o ⟨kind, line, ns⟩ (ws ++ ws') := by
  rw [AccountsNode, Node.gather, Node.gather, kind.gatherBehind_of_ne _ hbranch,
    kind.gatherBehind_of_ne _ hbranch, List.append_nil, List.append_nil]
  exact hkind.append hns

theorem accounts_leaf (kind : NodeKind)
    (hbranch : ∀ condition otherwise, kind ≠ .branch condition otherwise)
    (hkind : Accounts c o kind.ownExpressions kind.marks ws) :
    AccountsNode c o (.leaf kind line) ws := by
  have hnode : AccountsNode c o ⟨kind, line, []⟩ (ws ++ []) :=
    accounts_node kind hbranch hkind accountsNodes_nil
  rwa [List.append_nil] at hnode

end

/-! ### Statements without blocks -/

theorem reports_comment : Reports c o (fun n ws => AccountsNodes c o n.toList ws) comment := by
  have hcomment : ∀ (text : Text) (silent : Bool) (line : Nat),
      Reports c o (fun n ws => AccountsNodes c o n.toList ws)
        (pure (some (.leaf (.comment text silent) line)) : Production (Option Node)) :=
    fun text silent line => reports_pure (accounts_leaf (.comment text silent) nofun .nil).singleton
  refine reports_here_bind fun d _ => reports_after (fun _ => plain_take? _) (mute_take? _)
    fun text => ?_
  cases text with
  | some text => exact hcomment text false d.line
  | none =>
    refine reports_after (fun _ => plain_take? _) (mute_take? _) fun text => ?_
    cases text with
    | some text => exact hcomment text true d.line
    | none => exact reports_pure accountsNodes_nil

theorem reports_assignment : Reports c o (AccountsNode c o) assignment := by
  refine reports_here_bind fun d _ => reports_after (fun _ => plain_variableName) mute_variableName
    fun name => ?_
  refine reports_after (fun _ => plain_skipTrivia) mute_skipTrivia fun _ => ?_
  refine reports_after (fun _ => plain_expect _) (mute_expect _) fun _ => ?_
  refine reports_bind (reports_expression _) fun value ws hvalue => ?_
  refine reports_after (fun _ => plain_flag _) (mute_flag _) fun guarded => reports_pure ?_
  rw [List.append_nil]
  exact accounts_leaf (.assignment name value guarded) nofun hvalue

namespace Directive

theorem reports_list {own : α → List Expression} {p : Production α}
    (h : Reports c o (fun a ws => Accounts c o (own a) [] ws) p) :
    Reports c o (fun as ws => Accounts c o (as.flatMap own) [] ws) (list p) := by
  have hitem : Reports c o (fun r ws => Accounts c o (r.1.flatMap own) [] ws) (item p) := by
    refine reports_bind h fun a ws ha => ?_
    have hone : Accounts c o ([a].flatMap own) [] (ws ++ []) := by
      rwa [List.flatMap_singleton, List.append_nil]
    refine reports_after (fun _ => plain_skipTrivia) mute_skipTrivia fun _ => ?_
    refine reports_after (fun _ => plain_passes _) (mute_passes _) fun _ =>
      reports_ite (reports_pure hone) ?_
    exact reports_after (fun _ => plain_expect _) (mute_expect _) fun _ => reports_pure hone
  refine reports_after (fun _ => plain_expect _) (mute_expect _) fun _ => ?_
  refine reports_after (fun _ => plain_skipTrivia) mute_skipTrivia fun _ => ?_
  refine reports_after (fun _ => plain_passes _) (mute_passes _) fun _ =>
    reports_ite (reports_pure .nil) ?_
  refine reports_unfold .nil (fun found ws hfound b => hitem.mono fun r ws' hr => ?_) ()
  rw [List.flatMap_append]
  exact hfound.append hr

theorem reports_parameter :
    Reports c o (fun p ws => Accounts c o p.default.toList [] ws) parameter := by
  refine reports_after (fun _ => plain_skipTrivia) mute_skipTrivia fun _ => ?_
  refine reports_after (fun _ => plain_variableName) mute_variableName fun name => ?_
  refine reports_after (fun _ => plain_skipTrivia) mute_skipTrivia fun _ => ?_
  refine reports_after (fun _ => plain_passes _) (mute_passes _) fun _ =>
    reports_ite ?_ (reports_pure .nil)
  exact reports_map (reports_expression _) fun _ _ he => he

theorem reports_inclusion (line : Nat) : Reports c o (AccountsNode c o) (inclusion line) := by
  refine reports_after (fun _ => plain_skipTrivia) mute_skipTrivia fun _ => ?_
  refine reports_after (fun _ => plain_identifier) mute_identifier fun name => ?_
  refine reports_here_bind fun behind hbehind => ?_
  refine reports_after (fun _ => plain_skipTrivia) mute_skipTrivia fun _ => ?_
  refine reports_after (fun _ => plain_sees _) (mute_sees _) fun _ => reports_ite ?_ ?_
  · refine reports_map (reports_list (reports_expression _)) fun es ws hes => ?_
    rw [List.flatMap_singleton'] at hes
    exact accounts_leaf (.inclusion name es) nofun hes
  · exact reports_moveTo_bind hbehind (reports_pure (accounts_leaf (.inclusion name []) nofun .nil))

/-- The argument of a general directive is a text that is kept, whether an expression or
selectors. -/
theorem reports_value : Reports c o (fun v ws => Accounts c o [] v.toList ws) value := by
  refine reports_here_bind fun behind hbehind => ?_
  refine reports_after (fun _ => plain_skipTrivia) mute_skipTrivia fun _ => ?_
  refine reports_here_bind fun start hstart =>
    reports_ite (reports_moveTo_bind hbehind (reports_pure .nil)) ?_
  rintro s hs rfl
  refine ends_orElse ?_
  unfold Ends value.asExpression
  cases hrun : expression .statement s with
  | ok e t =>
    refine (gains_of_expression hs hrun).mono ?_
    rintro _ ⟨rfl, hbare⟩
    exact .mark fun htext => by rw [hbare htext, Options.reported_nil]
  | error e t =>
    -- The selectors are read with the warnings from before the attempt.
    obtain ⟨hoptions, hwarnings⟩ := still_of_expression (c := c) hs hrun
    have hgroup : Reports c s.options (fun v ws => Accounts c s.options [] v.toList ws)
        (some <$> Selector.groupText) :=
      reports_map reports_groupText fun _ _ htext => htext
    refine (hgroup { t with cursor := start } hstart hoptions).mono (fun v u hu => ?_) fun _ u hu =>
      ⟨hu.options, fun hquiet => (hu.quiet hquiet).trans hwarnings⟩
    obtain ⟨hahead, hkept, ws, hws, hknown⟩ := hu
    exact ⟨hahead, hkept, ws, hws.trans (congrArg (· ++ ws) hwarnings), hknown⟩

end Directive

/-! ### Statements with blocks -/

section
variable {block : Production (List Node)} (hblock : Reports c o (AccountsNodes c o) block)
include hblock

namespace Directive

theorem reports_definition (line : Nat) :
    Reports c o (AccountsNode c o) (definition block line) := by
  have hrest : ∀ (name : Text) (parameters : List Parameter) (ws : List Deprecation),
      Accounts c o (parameters.flatMap fun p => p.default.toList) [] ws →
      Reports c o (fun n ws' => AccountsNode c o n (ws ++ ws')) (do
        let _ ← skipTrivia
        return ⟨.definition ⟨name, parameters⟩, line, ← block⟩) := by
    intro name parameters ws hparameters
    refine reports_after (fun _ => plain_skipTrivia) mute_skipTrivia fun _ => ?_
    refine reports_map hblock fun ns ws' hns => ?_
    refine accounts_node (.definition ⟨name, parameters⟩) nofun ?_ hns
    show Accounts c o (parameters.filterMap (·.default)) [] ws
    rwa [List.filterMap_eq_flatMap_toList]
  refine reports_after (fun _ => plain_skipTrivia) mute_skipTrivia fun _ => ?_
  refine reports_after (fun _ => plain_identifier) mute_identifier fun name => ?_
  refine reports_after (fun _ => plain_skipTrivia) mute_skipTrivia fun _ => ?_
  refine reports_after (fun _ => plain_sees _) (mute_sees _) fun _ => reports_ite ?_ ?_
  · exact reports_bind (reports_list reports_parameter) (hrest name)
  · exact reports_bind (reports_pure .nil) (hrest name)

/-- What a branch without what follows it adds. -/
theorem reports_alternative : Reports c o (fun r ws =>
    Accounts c o (r.1.flatMap (Alternative.gather NodeKind.ownExpressions))
      (r.1.flatMap (Alternative.gather NodeKind.marks)) ws) (alternative block) := by
  have hrest : ∀ (condition : Option Expression) (line : Nat) (ws : List Deprecation),
      Accounts c o condition.toList [] ws → Reports c o (fun r ws' =>
        Accounts c o (r.1.flatMap (Alternative.gather NodeKind.ownExpressions))
          (r.1.flatMap (Alternative.gather NodeKind.marks)) (ws ++ ws')) (do
        let _ ← skipTrivia
        let children ← block
        return ([⟨condition, line, children⟩], if condition.isSome then some () else none)) := by
    intro condition line ws hcondition
    refine reports_after (fun _ => plain_skipTrivia) mute_skipTrivia fun _ => ?_
    refine reports_map hblock fun ns ws' hns => ?_
    rw [List.flatMap_singleton, List.flatMap_singleton]
    exact hcondition.append hns
  refine reports_here_bind fun start hstart =>
    reports_after (fun _ => plain_skipTrivia) mute_skipTrivia fun _ => ?_
  refine reports_here_bind fun at' _ =>
    reports_after (fun _ => plain_keyword _) (mute_keyword _) fun _ => ?_
  refine reports_ite ?_ (reports_moveTo_bind hstart (reports_pure .nil))
  refine reports_after (fun _ => plain_skipTrivia) mute_skipTrivia fun _ => ?_
  refine reports_after (fun _ => plain_keyword _) (mute_keyword _) fun _ => reports_ite ?_ ?_
  · exact reports_bind (reports_some_expression _) fun condition => hrest condition at'.line
  · exact reports_bind (reports_pure .nil) fun condition => hrest condition at'.line

theorem reports_branch (line : Nat) : Reports c o (AccountsNode c o) (branch block line) := by
  refine reports_bind (reports_expression _) fun condition ws hcondition => ?_
  refine reports_after (fun _ => plain_skipTrivia) mute_skipTrivia fun _ => ?_
  refine reports_bind hblock fun ns ws' hns => ?_
  have hloop : Reports c o (fun as ws =>
      Accounts c o (as.flatMap (Alternative.gather NodeKind.ownExpressions))
        (as.flatMap (Alternative.gather NodeKind.marks)) ws)
      (unfold State.size (fun () => alternative block) ()) := by
    refine reports_unfold .nil
      (fun found ws hfound b => (reports_alternative hblock).mono fun r ws' hr => ?_) ()
    rw [List.flatMap_append, List.flatMap_append]
    exact hfound.append hr
  refine reports_map hloop fun as ws'' has => ?_
  rw [AccountsNode, Node.gather, Node.gather, NodeKind.gatherBehind_chain _ fun _ _ => rfl,
    NodeKind.gatherBehind_chain _ fun _ _ => rfl]
  exact hcondition.append (Accounts.append hns has)

theorem reports_loop (line : Nat) : Reports c o (AccountsNode c o) (loop block line) := by
  refine reports_bind (reports_expression _) fun condition ws hcondition => ?_
  refine reports_after (fun _ => plain_skipTrivia) mute_skipTrivia fun _ => ?_
  exact reports_map hblock fun ns ws' hns => accounts_node (.loop condition) nofun hcondition hns

theorem reports_atRule (name : Text) (line : Nat) :
    Reports c o (AccountsNode c o) (atRule block name line) := by
  refine reports_bind reports_value fun value ws hvalue =>
    reports_here_bind fun behind hbehind => ?_
  refine reports_after (fun _ => plain_skipTrivia) mute_skipTrivia fun _ => ?_
  refine reports_after (fun _ => plain_sees _) (mute_sees _) fun _ => reports_ite ?_ ?_
  · exact reports_map hblock fun ns ws' hns => accounts_node (.atRule name value) nofun hvalue hns
  · refine reports_moveTo_bind hbehind (reports_pure ?_)
    rw [List.append_nil]
    exact accounts_leaf (.atRule name value) nofun hvalue

end Directive

theorem reports_directive : Reports c o (AccountsNode c o) (directive block) := by
  refine reports_here_bind fun d _ =>
    reports_after (fun _ => plain_expect _) (mute_expect _) fun _ => ?_
  refine reports_after (fun _ => plain_identifier) mute_identifier fun name => ?_
  split
  · exact Directive.reports_definition hblock d.line
  · exact Directive.reports_inclusion d.line
  · exact Directive.reports_branch hblock d.line
  · exact reports_throw _
  · exact Directive.reports_loop hblock d.line
  · exact reports_map (reports_expression _) fun e ws he => accounts_leaf (.debug e) nofun he
  · exact reports_map (reports_expression _) fun e ws he => accounts_leaf (.warn e) nofun he
  · exact Directive.reports_atRule hblock name d.line

theorem reports_declarationValue (name : Text) (line : Nat) (spaced : Bool) {ws : List Deprecation}
    (hname : Accounts c o [] [name] ws) :
    Reports c o (fun n ws' => AccountsNode c o n (ws ++ ws'))
      (declarationValue block name line spaced) := by
  have hrest : ∀ (value : Option Expression) (ws' : List Deprecation),
      Accounts c o value.toList [] ws' →
      Reports c o (fun n ws'' => AccountsNode c o n (ws ++ (ws' ++ ws''))) (do
        let important ← flag .important
        let behind ← here
        let _ ← skipTrivia
        if ← sees (char '{') then
          unless spaced do
            fail "\";\""
          return ⟨.property name value important, line, ← block⟩
        else
          moveTo behind
          return .leaf (.property name value important) line) := by
    intro value ws' hvalue
    have hkind := hname.append hvalue
    refine reports_after (fun _ => plain_flag _) (mute_flag _) fun important => ?_
    refine reports_here_bind fun behind hbehind => ?_
    refine reports_after (fun _ => plain_skipTrivia) mute_skipTrivia fun _ => ?_
    refine reports_after (fun _ => plain_sees _) (mute_sees _) fun _ =>
      reports_ite (reports_check _ ?_) ?_
    · refine reports_map hblock fun ns ws'' hns => ?_
      rw [← List.append_assoc]
      exact accounts_node (.property name value important) nofun hkind hns
    · refine reports_moveTo_bind hbehind (reports_pure ?_)
      rw [List.append_nil]
      exact accounts_leaf (.property name value important) nofun hkind
  refine reports_after (fun _ => plain_andM (plain_pure _) (plain_sees _))
    (mute_andM (mute_pure _) (mute_sees _)) ?_
  refine fun _ => reports_ite ?_ ?_
  · exact reports_bind (reports_pure .nil) hrest
  · exact reports_bind (reports_some_expression _) hrest

theorem reports_declaration : Reports c o (AccountsNode c o) (declaration block) := by
  intro s hs ho
  show Ends (during false (passes hack) >>= _) s _ _
  refine Still.ends_bind (.refl s) ho (fun _ => plain_during _ (plain_passes _))
    (mute_during _ (mute_passes _)) ?_
  intro marked t ht
  have hst := ht.gains hs ho
  -- The name begins with the sign before it.
  have hname := reports_declarationName ht.forward hst.ahead hst.options
  refine ends_bind.mpr
    ((ends_during marked hname).mono (fun name u hu => ?_) fun _ u hu => hst.lapse hu)
  have hsu : Gains c o s u fun ws => Accounts c o [] [name] ws := hst.trans fun ws hws => hws ▸ hu
  refine hsu.ends fun ws hws => ?_
  refine reports_after (fun _ => plain_during _ plain_skipTrivia) (mute_during _ mute_skipTrivia)
    fun spaced => ?_
  refine reports_after (fun _ => plain_during _ (plain_sees _)) (mute_during _ (mute_sees _))
    fun named => ?_
  intro v hv ho'
  exact ends_during _ (reports_declarationValue hblock name s.cursor.line spaced hws v hv ho')

theorem reports_ruleset : Reports c o (AccountsNode c o) (ruleset block) := by
  refine reports_here_bind fun d _ => reports_bind reports_groupText fun text ws htext => ?_
  refine reports_after (fun _ => plain_skipTrivia) mute_skipTrivia fun _ => ?_
  exact reports_map hblock fun ns ws' hns => accounts_node (.ruleset text) nofun htext hns

/-- Giving an attempt up gives its warnings up. -/
theorem reports_declarationOrRuleset :
    Reports c o (AccountsNode c o) (declarationOrRuleset block) := by
  intro s hs ho
  have hagain : ∀ t : State, t.options = o → Ends (ruleset block) (t.giveUp s)
      (fun n u => Gains c o s u (AccountsNode c o n)) (fun _ u => Lapsed o s u) := by
    intro t ht
    refine (reports_ruleset hblock (t.giveUp s) hs ht).mono (fun n u hu => ?_) fun _ u hu => ?_
    · exact ⟨hu.ahead, hu.options, hu.warnings⟩
    · exact ⟨hu.options, hu.quiet⟩
  have hfirst := reports_declaration hblock s hs ho
  unfold Ends at hfirst ⊢
  unfold declarationOrRuleset
  cases hresult : declaration block s with
  | ok n t =>
    rw [hresult] at hfirst
    by_cases hend : t.atEndOfDeclaration = true
    · simp only [if_pos hend]
      exact hfirst
    · simp only [if_neg hend]
      exact hagain t hfirst.options
  | error e t =>
    rw [hresult] at hfirst
    have hsecond := hagain t hfirst.options
    unfold Ends at hsecond
    simp only
    cases hruleset : ruleset block (t.giveUp s) with
    | ok n u =>
      rw [hruleset] at hsecond
      exact hsecond
    | error e' u =>
      rw [hruleset] at hsecond
      exact hsecond

theorem reports_statement : Reports c o (AccountsNode c o) (statement block) := by
  refine reports_after (fun _ => plain_sees _) (mute_sees _) fun _ =>
    reports_ite reports_assignment ?_
  refine reports_after (fun _ => plain_sees _) (mute_sees _) fun _ => ?_
  exact reports_ite (reports_directive hblock) (reports_declarationOrRuleset hblock)

theorem reports_listStep (nested : Bool) :
    Reports c o (fun r ws => AccountsNodes c o r.1 ws) (listStep block nested) := by
  refine reports_after (fun _ => plain_passes _) (mute_passes _) fun _ => ?_
  refine reports_after (fun _ => plain_listEnds _) (mute_listEnds _) fun _ => ?_
  refine reports_ite (reports_pure accountsNodes_nil) ?_
  refine reports_after (fun _ => plain_passes _) (mute_passes _) fun _ => ?_
  refine reports_ite (reports_pure accountsNodes_nil)
    (reports_bind reports_comment fun n ws hn => ?_)
  cases n with
  | some n =>
    refine reports_pure ?_
    rwa [List.append_nil]
  | none =>
    refine reports_bind (reports_statement hblock) fun n ws' hnode => ?_
    have hanswer : Reports c o (fun r ws'' => AccountsNodes c o r.1 (ws ++ (ws' ++ ws'')))
        (pure ([n], some ()) : Production (List Node × Option Unit)) := by
      refine reports_pure ?_
      rw [List.append_nil]
      exact AccountsNodes.append hn hnode.singleton
    refine reports_get_bind fun s => reports_ite hanswer ?_
    refine reports_after (fun _ => plain_skipTrivia) mute_skipTrivia fun _ => ?_
    refine reports_after (fun _ => plain_orM (plain_passes _) (plain_listEnds _))
      (mute_orM (mute_passes _) (mute_listEnds _)) fun _ => ?_
    exact reports_check _ hanswer

theorem reports_statements (nested : Bool) :
    Reports c o (AccountsNodes c o) (statements block nested) :=
  reports_unfold accountsNodes_nil
    (fun _ _ hfound _ => (reports_listStep hblock nested).mono fun _ _ hr => hfound.append hr) ()

theorem reports_blockBy : Reports c o (AccountsNodes c o) (blockBy block) := by
  refine reports_after (fun _ => plain_expect _) (mute_expect _) fun _ => ?_
  refine reports_bind (reports_statements hblock true) fun ns ws hns => ?_
  refine reports_after (fun _ => plain_expect _) (mute_expect _) fun _ => ?_
  intro s hs ho
  refine ⟨hs, ho, [], (List.append_nil _).symm, fun _ => rfl, ?_⟩
  show AccountsNodes c o ns (ws ++ [])
  rwa [List.append_nil]

end

theorem reports_block : Reports c o (AccountsNodes c o) block :=
  reports_recurse (reports_fail _) fun _ => reports_blockBy

theorem reports_document : Reports c o (AccountsNode c o) document := by
  refine reports_here_bind fun d _ => reports_map (reports_statements reports_block false)
    fun ns ws hns => ?_
  exact accounts_node .root nofun .nil hns

end Grammar

open Grammar

/-- **The warnings of a text are those of its document.**  With quiet on there are none, whether the
text parses or not.  Otherwise the legacy variables in the expressions of the document warn once
each, in the order of the text, and nothing else does if the selectors, the names of properties and
the arguments of directives give no warnings. -/
theorem warnings_of_parse (source : Text) (options : Options) :
    (options.quiet = true → (parse source options).warnings = []) ∧
      (options.quiet = false → ∀ tree, (parse source options).result = .ok tree →
        (tree.deprecations options.filename).Sublist (parse source options).warnings ∧
          ((∀ t ∈ tree.marks, Bare (.start source options.line 0) options t) →
            (parse source options).warnings = tree.deprecations options.filename)) := by
  have hrun : Ends document (.start source options)
      (fun n t => Gains (.start source options.line 0) options (.start source options) t
        (AccountsNode (.start source options.line 0) options n))
      (fun _ t => Lapsed options (.start source options) t) :=
    reports_document _ (.refl _) rfl
  unfold Ends at hrun
  unfold parse
  cases hresult : document (.start source options) with
  | error e t =>
    rw [hresult] at hrun
    exact ⟨hrun.quiet, fun _ _ htree => nomatch htree⟩
  | ok n t =>
    rw [hresult] at hrun
    refine ⟨hrun.lapsed.quiet, ?_⟩
    rintro hloud _ ⟨⟩
    obtain ⟨ws, hws, -, haccounts⟩ := hrun.warnings
    replace hws : t.warnings = ws := hws
    have hreported :
        options.reported (n.deprecations options.filename) = n.deprecations options.filename :=
      if_neg (by rw [hloud]; exact Bool.false_ne_true)
    subst hws
    refine ⟨?_, fun hmarks => ?_⟩
    · rw [← hreported]
      exact haccounts.kept
    · rw [← hreported]
      exact haccounts.all hmarks

/-- Legacy variables in each kind of place, and a selector that was tried as a declaration first. -/
theorem warnings_of_parse_branches :
    ∃ tree,
    (parse
      "$a: !b;\n@if !c \x7bd: calc(#\x7b!e\x7d)\x7d\n@else if !f \x7bg:h(1) \x7b\x7d\x7d".toList).result =
        .ok tree ∧
      (parse
        "$a: !b;\n@if !c \x7bd: calc(#\x7b!e\x7d)\x7d\n@else if !f \x7bg:h(1) \x7b\x7d\x7d".toList).warnings =
        tree.deprecations none ∧
      (tree.deprecations none).map Deprecation.line = [1, 2, 2, 3] := by
  obtain ⟨tree, htree, htest⟩ : ∃ tree,
      (parse
        "$a: !b;\n@if !c \x7bd: calc(#\x7b!e\x7d)\x7d\n@else if !f \x7bg:h(1) \x7b\x7d\x7d".toList).result =
        .ok tree ∧
      decide ((∀ t ∈ tree.marks, '!' ∉ t ∧ '\x7b' ∉ t) ∧
        (tree.deprecations none).map Deprecation.line = [1, 2, 2, 3]) = true :=
    exists_of_parse (by decide +kernel)
  obtain ⟨hmarks, hlines⟩ := of_decide_eq_true htest
  refine ⟨tree, htree, ?_, hlines⟩
  refine (((warnings_of_parse _ {}).2 rfl tree htree).2 fun t ht => ?_)
  exact Lexer.bare_of_not_mem (hmarks t ht).1 (hmarks t ht).2

/-- The argument of the directive has no mark of a legacy variable, but the special function in it
reads on into the comment behind it. -/
theorem warns_of_comment :
    ∃ tree, (parse "@foo calc(#\x7b'\x7d);/*' + !x\x7d*/".toList).result = .ok tree ∧
      (∀ t ∈ tree.marks, '!' ∉ t) ∧
      (parse "@foo calc(#\x7b'\x7d);/*' + !x\x7d*/".toList).warnings = [⟨1, "x".toList, none⟩] ∧
      tree.deprecations none = [] := by
  obtain ⟨tree, htree, htest⟩ :
      ∃ tree, (parse "@foo calc(#\x7b'\x7d);/*' + !x\x7d*/".toList).result = .ok tree ∧
      decide ((∀ t ∈ tree.marks, '!' ∉ t) ∧ tree.deprecations none = []) = true :=
    exists_of_parse (by decide +kernel)
  obtain ⟨hmarks, hnone⟩ := of_decide_eq_true htest
  exact ⟨tree, htree, hmarks, by decide +kernel, hnone⟩

end Stylesheet
