import Stylesheet.Proofs.Collecting
import Stylesheet.Proofs.SelectorSpan

/-!
# What is read for what is answered

Every production that answers has something to show for it: a node has cost at least one character
of the text, and so has a round of a loop that another one follows.  `Pays` bounds what an answer is
worth together with what is then left to read.  It is passed on by the ways to put productions
together: a form of text that is passed pays one, and going back to a place gives back what was left
there.

So the nodes of a list of statements are no more than the characters read for them
(`pays_statements`), and a statement ends behind its start (`pays_statement`).
-/
namespace Stylesheet

/-! ### Counting nodes -/

namespace Node

/-- The number of nodes a node is made of: itself, the branches behind it, and the nodes below all
of them. -/
def count (n : Node) : Nat :=
  n.kinds.length

/-- The number of nodes some nodes are made of. -/
def countOf (ns : List Node) : Nat :=
  (kindsOf ns).length

@[simp] theorem countOf_nil : countOf [] = 0 := rfl

@[simp] theorem countOf_cons (n : Node) (ns : List Node) :
    countOf (n :: ns) = n.count + countOf ns :=
  List.length_append

theorem countOf_append (ns ms : List Node) : countOf (ns ++ ms) = countOf ns + countOf ms := by
  induction ns with
  | nil => simp
  | cons n ns ih => simp [ih, Nat.add_assoc]

theorem countOf_singleton (n : Node) : countOf [n] = n.count :=
  countOf_cons n []

theorem count_mk (kind : NodeKind) (line : Nat) (ns : List Node) :
    (⟨kind, line, ns⟩ : Node).count = kind.kinds.length + countOf ns :=
  List.length_append

theorem count_leaf (kind : NodeKind) (line : Nat) : (leaf kind line).count = kind.kinds.length :=
  count_mk kind line []

/-- A node that has no branches behind it. -/
theorem count_plain {kind : NodeKind} (hkind : kind.kinds = [kind]) (line : Nat) (ns : List Node) :
    (⟨kind, line, ns⟩ : Node).count = countOf ns + 1 := by
  rw [count_mk, hkind, List.length_singleton, Nat.add_comm]

theorem count_pos (n : Node) : 0 < n.count := by
  cases n with
  | mk kind line ns =>
    rw [count_mk]
    unfold NodeKind.kinds
    split
    · rw [List.length_cons]
      omega
    · rw [List.length_singleton]
      omega

end Node

namespace Grammar.Directive

/-- The number of nodes some branches are made of. -/
def countOf : List Alternative → Nat
  | [] => 0
  | a :: as => 1 + Node.countOf a.children + countOf as

theorem countOf_append (as bs : List Alternative) :
    countOf (as ++ bs) = countOf as + countOf bs := by
  induction as with
  | nil => simp [countOf]
  | cons a as ih => simp [countOf, ih, Nat.add_assoc]

/-- A branch is made of itself and those behind it. -/
theorem length_kinds_branch (condition : Option Expression) (as : List Alternative) :
    (NodeKind.branch condition (chain as)).kinds.length = 1 + countOf as := by
  induction as generalizing condition with
  | nil => rfl
  | cons a as ih =>
    have hothers := Node.count_mk (.branch a.condition (chain as)) a.line a.children
    have hself : (NodeKind.branch condition (chain (a :: as))).kinds.length =
        (⟨.branch a.condition (chain as), a.line, a.children⟩ : Node).count + 1 := rfl
    rw [hself, hothers, ih, countOf]
    omega

end Grammar.Directive

/-! ### Forms of text that take something -/

namespace Recognizer

/-- A form of text that fits only where something is left, and takes some of it. -/
def Takes (form : Recognizer) : Prop :=
  ∀ t n, form t = some n → 0 < n ∧ t ≠ []

theorem Positive.takes {form : Recognizer} (h : Positive form) (hnil : form [] = none) :
    form.Takes := by
  intro t n hn
  refine ⟨h t n hn, ?_⟩
  rintro rfl
  rw [hnil] at hn
  cases hn

theorem Takes.andThen {first : Recognizer} (h : first.Takes) (second : Recognizer) :
    (first.andThen second).Takes := by
  intro t n hn
  obtain ⟨k, hk, m, -, rfl⟩ := andThen_eq_some.mp hn
  obtain ⟨hpos, hne⟩ := h t k hk
  exact ⟨Nat.add_pos_left hpos m, hne⟩

theorem Takes.orElse {first second : Recognizer} (h : first.Takes) (h' : second.Takes) :
    (first.orElse second).Takes := by
  intro t n hn
  rcases orElse_eq_some_iff.mp hn with hn | ⟨-, hn⟩
  · exact h t n hn
  · exact h' t n hn

theorem Takes.notBefore {form : Recognizer} (h : form.Takes) (p : Char → Bool) :
    (form.notBefore p).Takes := by
  intro t n hn
  obtain ⟨k, hk, hend⟩ := Option.bind_eq_some_iff.mp hn
  split at hend
  · cases hend
  · cases hend
    exact h t n hk

theorem takes_one (p : Char → Bool) : (one p).Takes :=
  (positive_one p).takes rfl

theorem takes_literal (c : Char) (word : Text) : (literal (c :: word)).Takes :=
  (positive_literal (List.cons_ne_nil c word)).takes rfl

theorem takes_caseless (c : Char) (word : Text) : (caseless (c :: word)).Takes :=
  (positive_caseless (List.cons_ne_nil c word)).takes rfl

theorem takes_identifier : identifier.Takes :=
  positive_identifier.takes rfl

theorem takes_blockComment : blockComment.Takes := by
  refine Positive.takes (fun t n h => ?_) rfl
  unfold blockComment at h
  split at h
  · obtain ⟨m, -, rfl⟩ := Option.map_eq_some_iff.mp h
    exact Nat.succ_pos _
  · cases h

theorem takes_lineComment : lineComment.Takes := by
  refine Positive.takes (fun t n h => ?_) rfl
  unfold lineComment at h
  split at h
  · cases h
    exact Nat.succ_pos _
  · cases h

end Recognizer

open Recognizer (Takes takes_one takes_literal takes_caseless takes_identifier)

theorem Cursor.left_advance_lt {c : Cursor} {form : Recognizer} (hform : form.Takes) {n : Nat}
    (h : form c.rest = some n) : (c.advance n).left < c.left := by
  obtain ⟨hpos, hne⟩ := hform _ _ h
  have hleft := c.left_eq
  have hlength := List.length_pos_iff.mpr hne
  show c.left - n < c.left
  omega

namespace Grammar

variable {ε α β : Type} {c : Cursor} {n m k : Nat}

/-! ### Budgets -/

/-- A production that starts ahead of a place with at most `n` characters left to read ends ahead of
it, and what its answer is worth and what is then left come to at most `m`. -/
def Pays (c : Cursor) (n m : Nat) (worth : α → Nat) (p : EStateM ε State α) : Prop :=
  ∀ s, c.Before s.cursor → s.size ≤ n →
    Ends p s (fun a t => c.Before t.cursor ∧ worth a + t.size ≤ m) (fun _ _ => True)

section
variable {worth : α → Nat} {worth' : β → Nat}

theorem pays_pure {a : α} (h : worth a + n ≤ m) : Pays c n m worth (pure a : EStateM ε State α) :=
  fun _ hs hn => ⟨hs, Nat.le_trans (Nat.add_le_add_left hn _) h⟩

theorem pays_throw (e : ε) : Pays c n m worth (throw e : EStateM ε State α) :=
  fun _ _ _ => trivial

theorem pays_fail (expected : String) : Pays c n m worth (fail expected : Production α) :=
  fun _ _ _ => trivial

theorem pays_bind {p : EStateM ε State α} {f : α → EStateM ε State β} (hp : Pays c n m worth p)
    (hf : ∀ a l, worth a + l ≤ m → Pays c l k worth' (f a)) : Pays c n k worth' (p >>= f) := by
  intro s hs hn
  refine ends_bind.mpr ((hp s hs hn).mono ?_ fun _ _ h => h)
  rintro a t ⟨ht, hpaid⟩
  exact hf a t.size hpaid t ht (Nat.le_refl _)

/-- Who pays for more pays for less. -/
theorem Pays.mono {n' m' : Nat} {worth' : α → Nat} {p : EStateM ε State α} (h : Pays c n m worth p)
    (hn : n' ≤ n) (hpaid : ∀ a l, worth a + l ≤ m → worth' a + l ≤ m') : Pays c n' m' worth' p := by
  intro s hs hle
  refine (h s hs (Nat.le_trans hle hn)).mono ?_ fun _ _ h => h
  rintro a t ⟨ht, hle⟩
  exact ⟨ht, hpaid a _ hle⟩

/-- A production that only moves forward leaves no more to read than it found. -/
theorem pays_of_plain {p : EStateM ε State α} (h : ∀ d, Plain d p) (hpaid : ∀ a, worth a + n ≤ m) :
    Pays c n m worth p := by
  intro s hs hn
  refine (h s.cursor s (.refl _)).mono ?_ fun _ _ _ => trivial
  rintro a t ⟨hkept, -⟩
  have hless : t.size ≤ s.size := hkept.ahead.left_le
  have hworth := hpaid a
  exact ⟨hs.trans hkept.ahead, by omega⟩

theorem pays_after {p : EStateM ε State β} {f : β → EStateM ε State α} (hp : ∀ d, Plain d p)
    (hf : ∀ b, Pays c n m worth (f b)) : Pays c n m worth (p >>= f) := by
  have hfree : Pays c n n (fun _ => 0) p := pays_of_plain hp fun _ => by omega
  exact pays_bind hfree fun b l hl => (hf b).mono (by omega) fun _ _ h => h

theorem pays_here_bind {f : Cursor → Production α}
    (h : ∀ d, c.Before d → d.left ≤ n → Pays c d.left m worth (f d)) :
    Pays c n m worth (here >>= f) :=
  fun s hs hn => h s.cursor hs hn s hs (Nat.le_refl _)

/-- Going back to a place gives back what was left there. -/
theorem pays_moveTo_bind {d : Cursor} {f : Unit → Production α} (hd : c.Before d)
    (hf : Pays c d.left m worth (f ())) : Pays c n m worth (moveTo d >>= f) :=
  fun s _ _ => hf { s with cursor := d } hd (Nat.le_refl _)

theorem pays_ite {P : Prop} [Decidable P] {p q : EStateM ε State α} (hp : P → Pays c n m worth p)
    (hq : ¬ P → Pays c n m worth q) : Pays c n m worth (if P then p else q) := by
  split
  · next h => exact hp h
  · next h => exact hq h

theorem pays_check {P : Prop} [Decidable P] {f : Unit → Production α} (expected : String)
    (h : Pays c n m worth (f ())) : Pays c n m worth (if P then f () else fail expected >>= f) :=
  pays_ite (fun _ => h) fun _ _ _ _ => trivial

/-- A loop is worth what its rounds find. -/
theorem pays_unfold {worth : List α → Nat} (hnil : worth [] = 0)
    (happend : ∀ as bs, worth (as ++ bs) = worth as + worth bs)
    {step : β → EStateM ε State (List α × Option β)}
    (h : ∀ b n, Pays c n n (fun r => worth r.1) (step b)) (b : β) :
    Pays c n n worth (unfold State.size step b) := by
  intro s hs hn
  -- Carried through the rounds: all that was found so far, with what is left, comes to at most `n`.
  refine Ends.unfold (fun found _ t => c.Before t.cursor ∧ worth found + t.size ≤ n) ?_
    ⟨hs, by rwa [hnil, Nat.zero_add]⟩
  rintro found b t ⟨ht, hfound⟩
  refine (h b t.size t ht (Nat.le_refl _)).mono ?_ fun _ _ h => h
  rintro ⟨now, next⟩ u ⟨hu, hnow⟩
  have hboth : c.Before u.cursor ∧ worth (found ++ now) + u.size ≤ n := by
    replace hnow : worth now + u.size ≤ t.size := hnow
    refine ⟨hu, ?_⟩
    rw [happend]
    omega
  cases next with
  | none => exact hboth
  | some b' =>
    simp only
    split <;> exact hboth

/-- What a round of a loop is worth: what it finds, but at least one if another round follows. -/
def ofRound (worth : List α → Nat) (r : List α × Option β) : Nat :=
  max (worth r.1) r.2.isSome.toNat

theorem ofRound_found {worth : List α → Nat} {found : List α} (h : 0 < worth found)
    (next : Option β) : ofRound worth (found, next) = worth found :=
  Nat.max_eq_left (Nat.le_trans (Bool.toNat_le _) h)

theorem pays_rounds {worth : List α → Nat} (hnil : worth [] = 0)
    (happend : ∀ as bs, worth (as ++ bs) = worth as + worth bs)
    {step : β → EStateM ε State (List α × Option β)}
    (h : ∀ b n, Pays c n n (ofRound worth) (step b)) (b : β) :
    Pays c n n worth (unfold State.size step b) :=
  pays_unfold hnil happend (fun b n => (h b n).mono (Nat.le_refl n) fun _ _ hpaid =>
    Nat.le_trans (Nat.add_le_add_right (Nat.le_max_left _ _) _) hpaid) b

/-- A rule that uses itself pays if it does so whenever what it uses does. -/
theorem pays_recurse {stuck : EStateM ε State α} {rule : EStateM ε State α → EStateM ε State α}
    (hstuck : ∀ n, Pays c n n worth stuck)
    (hrule : ∀ p, (∀ n, Pays c n n worth p) → ∀ n, Pays c n n worth (rule p)) :
    Pays c n n worth (recurse State.size stuck rule) := by
  intro s hs hn
  -- The budget is what is left where the rule starts, so that it may use itself behind any place.
  have hself : Ends (recurse State.size stuck rule) s
      (fun a t => c.Before t.cursor ∧ worth a + t.size ≤ s.size) (fun _ _ => True) := by
    refine Ends.recurse (fun t => c.Before t.cursor)
      (fun t ht => hstuck t.size t ht (Nat.le_refl _)) (fun p hp t ht => ?_) hs
    refine hrule p (fun n u hu hle => ?_) t.size t ht (Nat.le_refl _)
    refine (hp u hu).mono ?_ fun _ _ h => h
    rintro a v ⟨hv, hpaid⟩
    exact ⟨hv, Nat.le_trans hpaid hle⟩
  refine hself.mono ?_ fun _ _ h => h
  rintro a t ⟨ht, hpaid⟩
  exact ⟨ht, Nat.le_trans hpaid hn⟩

theorem pays_during {p : Production α} (committed : Bool) (h : Pays c n m worth p) :
    Pays c n m worth (during committed p) := by
  intro s hs hn
  have hrun := h s hs hn
  unfold Ends at hrun ⊢
  unfold during
  cases hresult : p s with
  | error e t => trivial
  | ok a t =>
    rw [hresult] at hrun
    exact hrun

/-! ### Passing a form of text -/

theorem pays_take? {form : Recognizer} (hform : form.Takes) :
    Pays c n n (fun o => o.isSome.toNat) (take? form) := by
  intro s hs hn
  unfold Ends
  rw [take?_apply]
  cases hmatch : form s.cursor.rest with
  | none => exact ⟨hs, by simpa using hn⟩
  | some k =>
    have hless : (s.cursor.advance k).left < s.size := Cursor.left_advance_lt hform hmatch
    refine ⟨hs.advance k, ?_⟩
    show 1 + (s.cursor.advance k).left ≤ n
    omega

/-- A production that says whether it passed something: what is passed is worth one. -/
abbrev Passes (c : Cursor) (n : Nat) (p : EStateM ε State Bool) : Prop :=
  Pays c n n Bool.toNat p

theorem passes_passes {form : Recognizer} (hform : form.Takes) : Passes c n (passes form) :=
  pays_bind (pays_take? hform) fun _ _ hl => pays_pure hl

theorem pays_if {p : EStateM ε State Bool} {q r : EStateM ε State α} (hp : Passes c n p)
    (hq : ∀ l, l < n → Pays c l m worth q) (hr : Pays c n m worth r) :
    Pays c n m worth (p >>= fun found => if found then q else r) := by
  refine pays_bind hp fun found l hl => pays_ite (fun hfound => ?_) fun hfound => ?_
  · rw [hfound, Bool.toNat_true] at hl
    exact hq l (by omega)
  · exact hr.mono (by omega) fun _ _ h => h

theorem passes_orM {p q : Production Bool} (hp : Passes c n p) (hq : Passes c n q) :
    Passes c n (p <||> q) := by
  refine pays_bind hp fun found l hl => ?_
  cases found with
  | true => exact pays_pure hl
  | false => exact hq.mono (by omega) fun _ _ h => h

/-- What is said behind a form of text that was passed. -/
theorem passes_true (h : m < n) : Pays c m n Bool.toNat (pure true : EStateM ε State Bool) :=
  pays_pure (by rw [Bool.toNat_true]; omega)

theorem passes_false : Passes c n (pure false : EStateM ε State Bool) :=
  pays_pure (by rw [Bool.toNat_false]; omega)

/-- A production may decline by going back to where it started. -/
theorem passes_here_bind {f : Cursor → Production Bool}
    (h : ∀ d, c.Before d → Passes c d.left (f d)) : Passes c n (here >>= f) :=
  pays_here_bind fun d hd hleft => (h d hd).mono (Nat.le_refl _) fun _ _ hl => Nat.le_trans hl hleft

theorem pays_expect (x : Char) : Pays c n n (fun _ => 1) (expect x) := by
  refine pays_if (passes_passes (takes_one _)) (fun l hl => pays_pure ?_) (pays_fail _)
  omega

theorem pays_variableName : Pays c n n (fun _ => 1) variableName := by
  refine pays_bind (pays_take? ((takes_one _).andThen _)) fun name l hl => ?_
  cases name with
  | some name => exact pays_pure hl
  | none => exact pays_fail _

end

/-! ### Names and selectors -/

theorem passes_interpolation : Passes c n interpolation := by
  refine pays_if (passes_passes (takes_literal _ _)) (fun l hl => ?_) passes_false
  exact pays_after (fun _ => plain_lexing_interpolation) fun _ => passes_true hl

theorem passes_namePiece : Passes c n namePiece :=
  passes_orM (passes_passes takes_identifier) passes_interpolation

namespace Selector

theorem passes_classPiece : Passes c n classPiece := by
  refine pays_if (passes_passes ((takes_one _).andThen _)) (fun l hl => passes_true hl) ?_
  refine pays_after (fun _ => plain_sees _) fun _ => pays_ite (fun _ => ?_) fun _ => passes_false
  exact pays_after (fun _ => plain_passes _) fun _ => passes_interpolation

theorem passes_attributePiece : Passes c n attributePiece := by
  refine pays_if (passes_passes (takes_one _)) (fun l hl => ?_) passes_false
  have hclose : Pays c l n Bool.toNat (do expect ']'; return true) :=
    pays_after (fun _ => plain_expect _) fun _ => passes_true hl
  refine pays_after (fun _ => plain_skipTrivia) fun _ => ?_
  refine pays_after (fun _ => plain_orM (plain_passes _) plain_interpolation) fun _ => ?_
  refine pays_check _ (pays_after (fun _ => plain_skipTrivia) fun _ => ?_)
  refine pays_after (fun _ => plain_passes _) fun _ => pays_ite (fun _ => ?_) fun _ => hclose
  refine pays_after (fun _ => plain_skipTrivia) fun _ => ?_
  refine pays_after (fun _ => plain_orM (plain_passes _) plain_interpolation) fun _ => ?_
  exact pays_check _ (pays_after (fun _ => plain_skipTrivia) fun _ => hclose)

theorem passes_negationPiece {sequence : Production Bool} (h : ∀ d, Plain d sequence) :
    Passes c n (negationPiece sequence) := by
  refine pays_if (passes_passes (takes_caseless _ _)) (fun l hl => ?_) passes_false
  refine pays_after (fun _ => plain_skipTrivia) fun _ => pays_after h fun _ => pays_check _ ?_
  refine pays_after (fun _ => plain_skipTrivia) fun _ => ?_
  exact pays_after (fun _ => plain_expect _) fun _ => passes_true hl

theorem passes_pseudoPiece : Passes c n pseudoPiece := by
  refine passes_here_bind fun start hstart => ?_
  refine pays_if (passes_passes ((takes_one _).andThen _)) (fun l hl => ?_) passes_false
  refine pays_after (fun _ => plain_orM (plain_passes _) plain_interpolation) fun _ => ?_
  refine pays_ite (fun _ => ?_) fun _ => pays_moveTo_bind hstart passes_false
  refine pays_after (fun _ => plain_passes _) fun _ => pays_ite (fun _ => ?_) fun _ =>
    passes_true hl
  exact pays_after (fun _ => plain_passes _) fun _ => pays_check _ (passes_true hl)

theorem passes_piece {sequence : Production Bool} (h : ∀ d, Plain d sequence) :
    Passes c n (piece sequence) := by
  have hname : (element.orElse (hashName.orElse (char '&'))).Takes :=
    ((takes_one _).orElse takes_identifier).orElse (((takes_one _).andThen _).orElse (takes_one _))
  exact passes_orM (passes_passes hname) <| passes_orM passes_classPiece <|
    passes_orM passes_attributePiece <| passes_orM (passes_negationPiece h) <|
      passes_orM passes_pseudoPiece passes_interpolation

/-- A run of tokens that is not empty takes some of the text. -/
theorem size_of_run {s t : State} {found : Bool} (h : run s = .ok found t) :
    found.toNat + t.size ≤ s.size := by
  rw [run_apply] at h
  unfold lexing at h
  cases hrun : Lexer.takeUntil Token.isOperator (.ofCursor s.cursor s.options) with
  | error e l =>
    simp only [hrun] at h
    cases h
    exact Nat.le_of_eq (Nat.zero_add _)
  | ok tokens l =>
    simp only [hrun] at h
    split at h
    · cases h
      exact Nat.le_of_eq (Nat.zero_add _)
    · next hempty =>
      cases h
      have hts : tokens ≠ [] := fun hnil => hempty (List.isEmpty_iff.mpr hnil)
      have hless : l.front.left < s.size := Lexer.left_lt_of_collectUntil hrun hts
      show 1 + l.front.left ≤ s.size
      omega

theorem passes_run : Passes c n run := by
  intro s hs hn
  refine ((plain_run s (.refl s.cursor)).and_of_ok fun _ _ => size_of_run).mono ?_
    fun _ _ _ => trivial
  rintro found t ⟨⟨hkept, -⟩, hpaid⟩
  exact ⟨hs.trans hkept.ahead, Nat.le_trans hpaid hn⟩

theorem passes_sequence : Passes c n sequence := by
  rw [sequence_eq]
  refine passes_here_bind fun start hstart => ?_
  refine pays_after (fun _ => plain_repeatWhile (plain_piece plain_sequence)) fun _ => ?_
  refine pays_here_bind fun behind hbehind hless => pays_ite (fun hpassed => ?_) fun _ => ?_
  · exact passes_true (hstart.left_lt hbehind hpassed)
  · exact passes_run.mono (Nat.le_refl _) fun _ _ h => Nat.le_trans h hless

theorem passes_continuation : Passes c n continuation := by
  refine passes_here_bind fun start hstart => ?_
  refine pays_after (fun _ => plain_skipTrivia) fun _ =>
    pays_after (fun _ => plain_passes _) fun _ => ?_
  refine pays_after (fun _ => plain_skipTrivia) fun _ => ?_
  refine pays_if passes_sequence (fun l hl => passes_true hl)
    (pays_ite (fun _ => pays_fail _) fun _ => ?_)
  exact pays_moveTo_bind hstart passes_false

theorem passes_alternative : Passes c n alternative := by
  refine passes_here_bind fun start hstart => ?_
  refine pays_after (fun _ => plain_skipTrivia) fun _ => ?_
  refine pays_if (passes_passes (takes_one _)) (fun l hl => ?_)
    (pays_moveTo_bind hstart passes_false)
  refine pays_after (fun _ => plain_skipTrivia) fun _ => ?_
  exact pays_after (fun _ => plain_selector) fun _ => passes_true hl

end Selector

/-! ### Statements without blocks -/

/-- What the node is worth that a comment may be. -/
theorem pays_comment : Pays c n n (fun node => Node.countOf node.toList) comment := by
  refine pays_here_bind fun _ _ hleft => ?_
  refine pays_bind (pays_take? Recognizer.takes_blockComment) fun text l hl => ?_
  have hcomment : ∀ (text : Text) (silent : Bool) (line m : Nat), 1 + m ≤ n →
      Pays c m n (fun node => Node.countOf node.toList)
        (pure (some (.leaf (.comment text silent) line)) : Production (Option Node)) :=
    fun _ _ _ _ hm => pays_pure hm
  cases text with
  | some text => exact hcomment text false _ l (Nat.le_trans hl hleft)
  | none =>
    refine pays_bind (pays_take? Recognizer.takes_lineComment) fun text k hk => ?_
    replace hl : l ≤ n := by simpa using Nat.le_trans hl hleft
    cases text with
    | some text => exact hcomment text true _ k (Nat.le_trans hk hl)
    | none => exact pays_pure (Nat.le_trans hk hl)

theorem pays_assignment : Pays c n n Node.count assignment := by
  refine pays_here_bind fun _ _ hleft => ?_
  refine pays_bind pays_variableName fun name l hl => ?_
  refine pays_after (fun _ => plain_skipTrivia) fun _ =>
    pays_after (fun _ => plain_expect _) fun _ => ?_
  refine pays_after (fun _ => plain_expression _) fun value => ?_
  refine pays_after (fun _ => plain_flag _) fun guarded => pays_pure ?_
  exact Nat.le_trans hl hleft

namespace Directive

/-- An item behind which another one comes has passed a comma. -/
theorem pays_item {p : Production α} (h : ∀ d, Plain d p) :
    Pays c n n (fun r => r.2.isSome.toNat) (item p) := by
  refine pays_after h fun a => pays_after (fun _ => plain_skipTrivia) fun _ => ?_
  refine pays_if (passes_passes (takes_one _)) (fun l hl => pays_pure ?_) ?_
  · show 1 + l ≤ n
    omega
  · exact pays_after (fun _ => plain_expect _) fun _ => pays_pure (Nat.le_of_eq (Nat.zero_add n))

/-- The sign of the directive, which was passed before, pays for the use of a block definition. -/
theorem pays_inclusion (line : Nat) : Pays c n (n + 1) Node.count (inclusion line) := by
  have hleaf : ∀ (name : Text) (arguments : List Expression), Pays c n (n + 1) Node.count
      (pure (.leaf (.inclusion name arguments) line) : Production Node) :=
    fun _ _ => pays_pure (Nat.le_of_eq (Nat.add_comm 1 n))
  refine pays_after (fun _ => plain_skipTrivia) fun _ =>
    pays_after (fun _ => plain_identifier) fun name => ?_
  refine pays_here_bind fun behind hbehind hleft =>
    pays_after (fun _ => plain_skipTrivia) fun _ => ?_
  refine pays_after (fun _ => plain_sees _) fun _ => pays_ite (fun _ => ?_) fun _ => ?_
  · refine pays_after (fun _ => plain_list (plain_expression _)) fun _ => ?_
    exact (hleaf _ _).mono hleft fun _ _ h => h
  · exact pays_moveTo_bind hbehind ((hleaf _ _).mono hleft fun _ _ h => h)

end Directive

/-! ### Statements with blocks -/

section
variable {block : Production (List Node)}
  (hblock : ∀ n, Pays c n n (fun ns => Node.countOf ns + 1) block)
include hblock

/-- The opening brace of a block pays for the node that the block belongs to. -/
theorem pays_block_bind {f : List Node → Node} (hf : ∀ ns, (f ns).count = Node.countOf ns + 1) :
    Pays c n n Node.count (block >>= fun ns => pure (f ns)) :=
  pays_bind (hblock n) fun ns l hl => pays_pure (by rwa [hf])

namespace Directive

theorem pays_definition (line : Nat) : Pays c n n Node.count (definition block line) := by
  have hrest : ∀ (name : Text) (ps : List Parameter), Pays c n n Node.count (do
      let _ ← skipTrivia
      return ⟨.definition ⟨name, ps⟩, line, ← block⟩) := fun name ps =>
    pays_after (fun _ => plain_skipTrivia) fun _ => pays_block_bind hblock fun ns =>
      Node.count_plain rfl line ns
  refine pays_after (fun _ => plain_skipTrivia) fun _ =>
    pays_after (fun _ => plain_identifier) fun name => ?_
  refine pays_after (fun _ => plain_skipTrivia) fun _ =>
    pays_after (fun _ => plain_sees _) fun _ => ?_
  refine pays_ite (fun _ => ?_) fun _ => hrest name []
  exact pays_after (fun _ => plain_list plain_parameter) fun ps => hrest name ps

/-- A round of the branches behind one: the words before a branch pay for it, and so for another
one. -/
theorem pays_alternative :
    Pays c n n (ofRound countOf) (alternative block) := by
  have helse : ((Recognizer.literal "@else".toList).notBefore isNameChar).Takes :=
    (takes_literal _ _).notBefore _
  refine pays_here_bind fun start hstart hleft => pays_after (fun _ => plain_skipTrivia) fun _ => ?_
  refine pays_here_bind fun place _ hplace => ?_
  refine pays_if (passes_passes helse) (fun l hl => ?_) ?_
  · have hrest : ∀ condition : Option Expression, Pays c l n (ofRound countOf) (do
        let _ ← skipTrivia
        let children ← block
        return ([⟨condition, place.line, children⟩], if condition.isSome then some ()
          else none)) := by
      intro condition
      refine pays_after (fun _ => plain_skipTrivia) fun _ => pays_bind (hblock l) fun ns k hk => ?_
      have hworth : countOf [⟨condition, place.line, ns⟩] = 1 + Node.countOf ns := rfl
      refine pays_pure ?_
      rw [ofRound_found (by rw [hworth]; omega), hworth]
      omega
    refine pays_after (fun _ => plain_skipTrivia) fun _ =>
      pays_after (fun _ => plain_keyword _) fun _ => ?_
    refine pays_ite (fun _ => ?_) fun _ => hrest none
    exact pays_after (fun _ => plain_map (plain_expression _)) hrest
  · exact pays_moveTo_bind hstart
      (pays_pure (by rwa [show ofRound countOf _ = 0 from rfl, Nat.zero_add]))

theorem pays_branch (line : Nat) : Pays c n n Node.count (branch block line) := by
  refine pays_after (fun _ => plain_expression _) fun condition => ?_
  refine pays_after (fun _ => plain_skipTrivia) fun _ => pays_bind (hblock n) fun ns l hl => ?_
  -- The brace of the first block pays for the branch itself, and the others pay for themselves.
  refine pays_bind (pays_rounds rfl countOf_append (fun _ _ => pays_alternative hblock) ()) ?_
  refine fun as k hk => pays_pure ?_
  rw [Node.count_mk, length_kinds_branch]
  omega

theorem pays_loop (line : Nat) : Pays c n n Node.count (loop block line) := by
  refine pays_after (fun _ => plain_expression _) fun condition => ?_
  refine pays_after (fun _ => plain_skipTrivia) fun _ => ?_
  exact pays_block_bind hblock fun ns => Node.count_plain rfl line ns

theorem pays_atRule (name : Text) (line : Nat) :
    Pays c n (n + 1) Node.count (atRule block name line) := by
  refine pays_after (fun _ => plain_value) fun value =>
    pays_here_bind fun behind hbehind hleft => ?_
  refine pays_after (fun _ => plain_skipTrivia) fun _ =>
    pays_after (fun _ => plain_sees _) fun _ => ?_
  refine pays_ite (fun _ => ?_) fun _ => ?_
  · exact (pays_block_bind hblock fun ns => Node.count_plain rfl line ns).mono (Nat.le_refl _)
      fun _ _ h => by omega
  · refine pays_moveTo_bind hbehind (pays_pure ?_)
    show 1 + behind.left ≤ n + 1
    omega

end Directive

/-- The sign of a directive pays for it. -/
theorem pays_directive : Pays c n n Node.count (directive block) := by
  refine pays_here_bind fun start _ hleft => pays_bind (pays_expect '@') fun _ l hl => ?_
  refine pays_after (fun _ => plain_identifier) fun name => ?_
  -- A directive that needs a block has its brace to pay with; the others have only the sign.
  have hown : ∀ {p : Production Node}, Pays c l l Node.count p → Pays c l n Node.count p :=
    fun hp => hp.mono (Nat.le_refl l) fun _ _ h => by omega
  have hsign : ∀ {p : Production Node}, Pays c l (l + 1) Node.count p → Pays c l n Node.count p :=
    fun hp => hp.mono (Nat.le_refl l) fun _ _ h => by omega
  have hvalue : ∀ f : Expression → NodeKind, (∀ e, (f e).kinds = [f e]) → Pays c l n Node.count
      (do return .leaf (f (← expression .statement)) start.line) := by
    intro f hf
    refine pays_after (fun _ => plain_expression _) fun e => pays_pure ?_
    rw [Node.count_leaf, hf, List.length_singleton]
    omega
  split
  · exact hown (Directive.pays_definition hblock _)
  · exact hsign (Directive.pays_inclusion _)
  · exact hown (Directive.pays_branch hblock _)
  · exact pays_throw _
  · exact hown (Directive.pays_loop hblock _)
  · exact hvalue .debug fun _ => rfl
  · exact hvalue .warn fun _ => rfl
  · exact hsign (Directive.pays_atRule hblock _ _)

/-- What follows the colon of a declaration takes all that is left but for the node itself. -/
theorem pays_declarationValue (name : Text) (line : Nat) (spaced : Bool) :
    Pays c n (n + 1) Node.count (declarationValue block name line spaced) := by
  have hrest : ∀ value : Option Expression, Pays c n (n + 1) Node.count (do
        let important ← flag .important
        let behind ← here
        let _ ← skipTrivia
        if ← sees (char '{') then
          unless spaced do
            fail "\";\""
          return ⟨.property name value important, line, ← block⟩
        else
          moveTo behind
          return .leaf (.property name value important) line) := by
    intro value
    refine pays_after (fun _ => plain_flag _) fun important => ?_
    refine pays_here_bind fun behind hbehind hleft =>
      pays_after (fun _ => plain_skipTrivia) fun _ => ?_
    refine pays_after (fun _ => plain_sees _) fun _ =>
      pays_ite (fun _ => pays_check _ ?_) fun _ => ?_
    · exact (pays_block_bind hblock fun ns => Node.count_plain rfl line ns).mono (Nat.le_refl _)
        fun _ _ h => by omega
    · refine pays_moveTo_bind hbehind (pays_pure ?_)
      show 1 + behind.left ≤ n + 1
      omega
  refine pays_after (fun _ => plain_andM (plain_pure _) (plain_sees _)) fun _ =>
    pays_ite (fun _ => ?_) ?_
  · exact hrest none
  · exact fun _ => pays_after (fun _ => plain_map (plain_expression _)) hrest

/-- The colon of a declaration pays for it. -/
theorem pays_declaration : Pays c n n Node.count (declaration block) := by
  have hstart : ∀ d, Plain d here := fun _ => plain_here_bind fun _ _ => plain_pure _
  refine pays_after (fun _ => plain_during _ (hstart _)) fun start => ?_
  refine pays_after (fun _ => plain_during _ (plain_passes _)) fun marked => ?_
  have hname : Pays c n n (fun _ => 1) (do
      propertyName
      let name := (← here).textSince start
      let _ ← skipTrivia
      expect ':'
      return name) := by
    refine pays_after (fun _ => plain_propertyName) fun _ => pays_here_bind fun behind _ hleft => ?_
    refine pays_after (fun _ => plain_skipTrivia) fun _ => ?_
    exact pays_bind (pays_expect ':') fun _ l hl => pays_pure (by omega)
  refine pays_bind (pays_during _ hname) fun name l hl => ?_
  refine pays_after (fun _ => plain_during _ plain_skipTrivia) fun spaced => ?_
  refine pays_after (fun _ => plain_during _ (plain_sees _)) fun named => ?_
  exact pays_during _
    ((pays_declarationValue hblock _ _ _).mono (Nat.le_refl l) fun _ _ h => by omega)

theorem pays_ruleset : Pays c n n Node.count (ruleset block) := by
  refine pays_here_bind fun start _ hleft => ?_
  refine pays_after (fun _ => Selector.plain_groupText) fun selector => ?_
  refine pays_after (fun _ => plain_skipTrivia) fun _ => ?_
  exact (pays_block_bind hblock fun ns => Node.count_plain rfl start.line ns).mono (Nat.le_refl _)
    fun _ _ h => Nat.le_trans h hleft

/-- What an attempt that is given up has taken is given back. -/
theorem pays_declarationOrRuleset : Pays c n n Node.count (declarationOrRuleset block) := by
  intro s hs hn
  have hattempt := pays_declaration hblock s hs hn
  -- Whatever the attempt has passed, the ruleset starts where the attempt did, with all of the
  -- budget.
  have hretry : ∀ t : State, Ends (ruleset block) (t.giveUp s)
      (fun node u => c.Before u.cursor ∧ node.count + u.size ≤ n) (fun _ _ => True) :=
    fun t => pays_ruleset hblock (t.giveUp s) hs hn
  unfold Ends at hattempt hretry ⊢
  unfold declarationOrRuleset
  cases hdeclaration : declaration block s with
  | ok node t =>
    rw [hdeclaration] at hattempt
    by_cases hend : t.atEndOfDeclaration = true
    · simp only [if_pos hend]
      exact hattempt
    · simp only [if_neg hend]
      exact hretry t
  | error rejected t =>
    have hruleset := hretry t
    cases hresult : ruleset block (t.giveUp s) with
    | ok node u =>
      rw [hresult] at hruleset
      simp only [hresult]
      exact hruleset
    | error e u =>
      simp only [hresult]

/-- **A statement has taken at least as many characters as it has nodes.** -/
theorem pays_statement : Pays c n n Node.count (statement block) := by
  refine pays_after (fun _ => plain_sees _) fun _ => pays_ite (fun _ => pays_assignment) fun _ => ?_
  refine pays_after (fun _ => plain_sees _) fun _ => ?_
  exact pays_ite (fun _ => pays_directive hblock) fun _ => pays_declarationOrRuleset hblock

/-- **So has a round of a list of statements**, and at least one if another round follows. -/
theorem pays_listStep (nested : Bool) :
    Pays c n n (ofRound Node.countOf) (listStep block nested) := by
  have hfound : ∀ {node : Node} {l : Nat}, node.count + l ≤ n → Pays c l n (ofRound Node.countOf)
      (pure ([node], some ()) : Production (List Node × Option Unit)) := by
    intro node l hl
    refine pays_pure ?_
    rwa [ofRound_found (by rw [Node.countOf_singleton]; exact node.count_pos),
      Node.countOf_singleton]
  have hend :
      Pays c n n (ofRound Node.countOf) (pure ([], none) : Production (List Node × Option Unit)) :=
    pays_pure (Nat.le_of_eq (Nat.zero_add n))
  refine pays_after (fun _ => plain_passes _) fun _ =>
    pays_after (fun _ => plain_listEnds _) fun _ => ?_
  refine pays_ite (fun _ => hend) fun _ => pays_if (passes_passes (takes_one _)) (fun l hl => ?_) ?_
  · refine pays_pure ?_
    show 1 + l ≤ n
    omega
  refine pays_bind pays_comment fun found l hl => ?_
  cases found with
  | some node => exact hfound (Nat.le_trans (Nat.le_of_eq (by simp)) hl)
  | none =>
    replace hl : l ≤ n := by simpa using hl
    refine pays_bind (pays_statement hblock) fun node k hk => ?_
    replace hk : node.count + k ≤ n := Nat.le_trans hk hl
    -- Whether the statement ended a block is asked of the state it left.
    refine fun s hs hle => pays_ite (fun _ => hfound hk) (fun _ => ?_) s hs hle
    refine pays_after (fun _ => plain_skipTrivia) fun _ => ?_
    refine pays_after (fun _ => plain_orM (plain_passes _) (plain_listEnds _)) fun _ => ?_
    exact pays_check _ (hfound hk)

theorem pays_statements (nested : Bool) : Pays c n n Node.countOf (statements block nested) :=
  pays_rounds rfl Node.countOf_append (fun _ _ => pays_listStep hblock nested) ()

theorem pays_blockBy : Pays c n n (fun ns => Node.countOf ns + 1) (blockBy block) := by
  refine pays_bind (pays_expect '{') fun _ l hl =>
    pays_bind (pays_statements hblock true) fun ns k hk => ?_
  refine pays_after (fun _ => plain_expect _) fun _ s hs hle => ⟨hs, ?_⟩
  show Node.countOf ns + 1 + s.cursor.left ≤ n
  replace hle : s.cursor.left ≤ k := hle
  omega

end

/-- **A block has taken more characters than its statements have nodes.** -/
theorem pays_block : Pays c n n (fun ns => Node.countOf ns + 1) block :=
  pays_recurse (fun _ => pays_fail _) (fun _ hp _ => pays_blockBy hp)

end Grammar
end Stylesheet
