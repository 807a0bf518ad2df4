import Stylesheet.Proofs.NestedProperty
import Stylesheet.Proofs.SeamTokens

/-!
# Productions in front of a seam

A production that reads a part of a text reads it in the same way where the text goes on.
`Seam.Lasts` says so of two runs, one in the text and one in the whole: from places that belong to
each other they give the same answer and end at places that belong to each other, or both fail.
There is one way out.  Where the run in the text fails at the end of the text, the other one may
still find what was missing; such a failure has to be the doom of the whole run in the text.
-/
namespace Stylesheet
namespace Seam

open Grammar

variable {S : Seam} {n : Nat} {ε ε' α β : Type} {doom : Prop} {K K' K'' : Cursor → Cursor → Prop}
  {c d : Cursor} {s t : State}

variable (S) in
/-- Two states that remember the same, wherever they are, with the last block closed in the text. -/
structure Kin (s t : State) : Prop where
  options : t.options = s.options
  blockEnd : t.blockEnd = s.blockEnd
  ended : ∀ e ∈ s.blockEnd, e ≤ S.text.byteLength
  warnings : t.warnings = s.warnings
  rollback : s.rollback = .position ∧ t.rollback = .position

variable (S) in
/-- Two states that remember the same, at places in a relation. -/
structure Beside (K : Cursor → Cursor → Prop) (s t : State) : Prop extends S.Kin s t where
  cursor : K s.cursor t.cursor

theorem Beside.moved (h : S.Beside K s t) (hplace : K' c d) :
    S.Beside K' { s with cursor := c } { t with cursor := d } :=
  { h with cursor := hplace }

theorem Beside.mono (h : S.Beside K s t) (hK : ∀ c d, K c d → K' c d) : S.Beside K' s t :=
  { h with cursor := hK _ _ h.cursor }

variable (S) in
/-- The ends of a run in the text and of one in the whole. -/
inductive Lasting (doom : Prop) (K : Cursor → Cursor → Prop) :
    EStateM.Result ε State α → EStateM.Result ε' State α → Prop
  | ok (a : α) {s t : State} (ends : S.Beside K s t) : Lasting doom K (.ok a s) (.ok a t)
  | error (e : ε) (e' : ε') {s t : State} (ends : S.Kin s t) :
      Lasting doom K (.error e s) (.error e' t)
  | doomed (e : ε) (s : State) (r : EStateM.Result ε' State α) (h : doom) :
      Lasting doom K (.error e s) r

variable (S) in
/-- From places in a relation the run in the whole ends as the one in the text does, unless that is
doomed. -/
def Lasts (doom : Prop) (K K' : Cursor → Cursor → Prop) (p : EStateM ε State α)
    (q : EStateM ε' State α) : Prop :=
  ∀ s t, S.Beside K s t → S.Lasting doom K' (p s) (q t)

theorem Lasting.mono {r : EStateM.Result ε State α} {r' : EStateM.Result ε' State α} {doom' : Prop}
    (h : S.Lasting doom K r r') (hdoom : doom → doom') (hK : ∀ c d, K c d → K' c d) :
    S.Lasting doom' K' r r' := by
  cases h with
  | ok a ends => exact .ok a (ends.mono hK)
  | error e e' ends => exact .error e e' ends
  | doomed e s _ h => exact .doomed e s _ (hdoom h)

theorem Lasts.mono {L L' : Cursor → Cursor → Prop} {p : EStateM ε State α} {q : EStateM ε' State α}
    (h : S.Lasts doom K K' p q) (hK : ∀ c d, L c d → K c d) (hK' : ∀ c d, K' c d → L' c d) :
    S.Lasts doom L L' p q :=
  fun s t hs => (h s t (hs.mono hK)).mono id hK'

/-! ### Putting productions together -/

theorem lasts_pure (hK : ∀ c d, K c d → K' c d) (a : α) :
    S.Lasts doom K K' (pure a : EStateM ε State α) (pure a : EStateM ε' State α) :=
  fun _ _ h => .ok a (h.mono hK)

theorem lasts_throw (e : ε) (e' : ε') :
    S.Lasts doom K K' (throw e : EStateM ε State α) (throw e' : EStateM ε' State α) :=
  fun _ _ h => .error e e' h.toKin

/-- What follows two runs that end alike, if it follows both answers alike. -/
theorem Lasting.bind {p : EStateM ε State α} {q : EStateM ε' State α} {f : α → EStateM ε State β}
    {g : α → EStateM ε' State β} (h : S.Lasting doom K (p s) (q t))
    (hf : ∀ a u v, p s = .ok a u → S.Beside K u v → S.Lasting doom K' (f a u) (g a v)) :
    S.Lasting doom K' ((p >>= f) s) ((q >>= g) t) := by
  rw [bind_apply, bind_apply]
  generalize hr : p s = r, q t = r' at h ⊢
  cases h with
  | ok a ends => exact hf a _ _ hr ends
  | error e e' ends => exact .error e e' ends
  | doomed e s _ h => exact .doomed e s _ h

theorem lasts_bind {p : EStateM ε State α} {q : EStateM ε' State α} {f : α → EStateM ε State β}
    {g : α → EStateM ε' State β} (hp : S.Lasts doom K K' p q)
    (hf : ∀ a, S.Lasts doom K' K'' (f a) (g a)) : S.Lasts doom K K'' (p >>= f) (q >>= g) :=
  fun s t hs => (hp s t hs).bind fun a u v _ ends => hf a u v ends

theorem lasts_map {f : α → β} {p : EStateM ε State α} {q : EStateM ε' State α}
    (h : S.Lasts doom K K' p q) : S.Lasts doom K K' (f <$> p) (f <$> q) :=
  lasts_bind h fun a => lasts_pure (fun _ _ h => h) (f a)

theorem lasts_ite {P Q : Prop} [Decidable P] [Decidable Q] (hiff : P ↔ Q) {p p' : EStateM ε State α}
    {q q' : EStateM ε' State α} (h : P → S.Lasts doom K K' p q)
    (h' : ¬ P → S.Lasts doom K K' p' q') :
    S.Lasts doom K K' (if P then p else p') (if Q then q else q') := by
  by_cases hP : P
  · rw [if_pos hP, if_pos (hiff.mp hP)]
    exact h hP
  · rw [if_neg hP, if_neg (mt hiff.mpr hP)]
    exact h' hP

theorem lasts_here_bind {f g : Cursor → Production β}
    (h : ∀ c d, K c d → S.Lasts doom K K' (f c) (g d)) :
    S.Lasts doom K K' (here >>= f) (here >>= g) :=
  fun s t hs => h s.cursor t.cursor hs.cursor s t hs

theorem lasts_moveTo (h : K' c d) : S.Lasts doom K K' (moveTo c) (moveTo d) :=
  fun _ _ hs => .ok () (hs.moved h)

theorem lasts_fail (expected : String) :
    S.Lasts doom K K' (fail expected : Production α) (fail expected : Production α) :=
  fun _ _ hs => .error _ _ hs.toKin

theorem lasts_check {P : Prop} [Decidable P] {f g : Unit → Production α} (expected : String)
    (h : P → S.Lasts doom K K' (f ()) (g ())) :
    S.Lasts doom K K' (if P then f () else fail expected >>= f)
      (if P then g () else fail expected >>= g) :=
  have hfail : S.Lasts doom K (fun _ _ => False) (fail expected : Production Unit)
      (fail expected) := lasts_fail expected
  lasts_ite Iff.rfl h fun _ => lasts_bind hfail fun _ _ _ h => h.cursor.elim

theorem lasts_orM {p p' q q' : Production Bool} (h : S.Lasts doom K K p q)
    (h' : S.Lasts doom K K p' q') : S.Lasts doom K K (p <||> p') (q <||> q') := by
  refine lasts_bind h fun a => ?_
  cases a with
  | true => exact lasts_pure (fun _ _ h => h) true
  | false => exact h'

theorem lasts_andM {p p' q q' : Production Bool} (h : S.Lasts doom K K p q)
    (h' : S.Lasts doom K K p' q') : S.Lasts doom K K (p <&&> p') (q <&&> q') := by
  refine lasts_bind h fun a => ?_
  cases a with
  | true => exact h'
  | false => exact lasts_pure (fun _ _ h => h) false

/-- Loops whose rounds end alike end alike. -/
theorem lasting_loop {step : β → Production (List α × Option β)}
    (h : ∀ b, S.Lasts doom K K (step b) (step b)) {b : β}
    {r r' : EStateM.Result SyntaxError State (List α)} (hloop : Loop step b s r)
    (hs : S.Beside K s t) (hloop' : Loop step b t r') : S.Lasting doom K r r' := by
  induction hloop generalizing t r' with
  | @stops b s u found round =>
    have hround := h b s t hs
    rw [round] at hround
    cases hloop' with
    | stops round' =>
      rw [round'] at hround
      cases hround with
      | ok _ ends => exact .ok found ends
    | fails round' =>
      rw [round'] at hround
      cases hround
    | goesOn round' _ =>
      rw [round'] at hround
      cases hround
  | @fails b s u e round =>
    have hround := h b s t hs
    rw [round] at hround
    cases hloop' with
    | stops round' =>
      rw [round'] at hround
      cases hround with
      | doomed _ _ _ h => exact .doomed _ _ _ h
    | fails round' =>
      rw [round'] at hround
      cases hround with
      | error _ _ ends => exact .error _ _ ends
      | doomed _ _ _ h => exact .doomed _ _ _ h
    | goesOn round' _ =>
      rw [round'] at hround
      cases hround with
      | doomed _ _ _ h => exact .doomed _ _ _ h
  | @goesOn b b' s u found r round others ih =>
    have hround := h b s t hs
    rw [round] at hround
    cases hloop' with
    | stops round' =>
      rw [round'] at hround
      cases hround
    | fails round' =>
      rw [round'] at hround
      cases hround
    | goesOn round' others' =>
      rw [round'] at hround
      cases hround with
      | ok _ ends =>
        cases ih ends others' with
        | ok more ends => exact .ok (found ++ more) ends
        | error e e' ends => exact .error e e' ends
        | doomed e s _ h => exact .doomed e s _ h

/-- A loop over the parts of a list. -/
theorem lasts_unfold {step : Unit → Production (List α × Option Unit)}
    (hends : ∀ s r, Loop step () s r ↔ unfold State.size step () s = r)
    (h : S.Lasts doom K K (step ()) (step ())) :
    S.Lasts doom K K (unfold State.size step ()) (unfold State.size step ()) :=
  fun _ _ hs => lasting_loop (fun _ => h) ((hends _ _).mpr rfl) hs ((hends _ _).mpr rfl)

/-- A loop whose rounds say whether to go on. -/
theorem lasts_repeatWhile {step : Production Bool}
    (hends : ∀ s r, LoopWhile step s r ↔ repeatWhile State.size step s = r)
    (h : S.Lasts doom K K step step) :
    S.Lasts doom K K (repeatWhile State.size step) (repeatWhile State.size step) := by
  intro s t hs
  have hloop := (hends s _).mpr rfl
  generalize repeatWhile State.size step s = r at hloop
  induction hloop generalizing t with
  | @stops s u round =>
    have hround := h s t hs
    rw [round] at hround
    generalize hlong : step t = r' at hround
    cases hround with
    | ok _ ends =>
      rw [(hends t _).mp (.stops hlong)]
      exact .ok () ends
  | @fails s u e round =>
    have hround := h s t hs
    rw [round] at hround
    generalize hlong : step t = r' at hround
    cases hround with
    | error _ _ ends =>
      rw [(hends t _).mp (.fails hlong)]
      exact .error _ _ ends
    | doomed _ _ _ h => exact .doomed _ _ _ h
  | @goesOn s u r round others ih =>
    have hround := h s t hs
    rw [round] at hround
    generalize hlong : step t = r' at hround
    cases hround with
    | @ok _ _ v ends =>
      rw [(hends t _).mp (.goesOn hlong ((hends v _).mpr rfl))]
      exact ih _ ends

/-! ### The smallest productions -/

variable (S) in
/-- A relation of places that holds within the text, and nowhere but where places belong to each
other. -/
structure Tight (n : Nat) (K : Cursor → Cursor → Prop) : Prop where
  level : ∀ {c d}, S.Level n c d → K c d
  place : ∀ {c d}, K c d → S.Place n c d

theorem tight_place : S.Tight n (S.Place n) :=
  ⟨.level, id⟩

theorem tight_level : S.Tight n (S.Level n) :=
  ⟨id, .level⟩

section
variable (hK : S.Tight n K) {form : Recognizer} (hform : S.Steady form)
include hK hform

theorem lasts_sees : S.Lasts doom K K (sees form) (sees form) :=
  lasts_here_bind fun c d h => by
    rw [hform.sees (hK.place h)]
    exact lasts_pure (fun _ _ h => h) _

theorem lasts_take? : S.Lasts doom K K (take? form) (take? form) := by
  intro s t hs
  rw [take?_apply, take?_apply, hform.rest_eq (hK.place hs.cursor)]
  cases hk : form s.cursor.rest with
  | none => exact .ok none hs
  | some k =>
    obtain ⟨hlevel, hle⟩ := hform.level (hK.place hs.cursor) hk
    simp only [hlevel.rest, List.take_append_of_le_length hle]
    exact .ok _ (hs.moved (hK.level ((hlevel.advance hle).mono (Nat.sub_le _ _))))

theorem lasts_passes : S.Lasts doom K K (passes form) (passes form) :=
  lasts_map (lasts_take? hK hform)

end

theorem lasts_skipTrivia_bind (hK : S.Tight n K) {f g : Bool → EStateM SyntaxError State β}
    (h : ∀ a b, S.Lasts doom (S.Settled n) K' (f a) (g b)) :
    S.Lasts doom K K' (skipTrivia >>= f) (skipTrivia >>= g) := by
  intro s t hs
  rw [bind_apply, bind_apply, skipTrivia_apply, skipTrivia_apply]
  exact h _ _ _ _ (hs.moved (hK.place hs.cursor).skip_trivia)

/-- What follows white space and comments, whether there are any or not. -/
theorem lasts_trivia (hK : S.Tight n K) {f g : Production β} (h : S.Lasts doom (S.Place n) K' f g) :
    S.Lasts doom K K' (skipTrivia >>= fun _ => f) (skipTrivia >>= fun _ => g) :=
  lasts_skipTrivia_bind hK fun _ _ s t hs => h s t (hs.mono fun _ _ hplace => hplace.place)

/-! ### Steady forms -/

theorem steady_char {x : Char} (hx : x ∉ ['\n', ';', '\x7d']) : S.Steady (char x) := by
  refine steady_of_newline (Recognizer.stable_one _).bounded
    (newline_char fun heq => hx (by simp [heq])) rfl ?_
  intro y hy t
  refine char_eq_none fun heq => hx ?_
  rw [List.head?_cons] at heq
  rw [← Option.some.inj heq]
  exact List.mem_cons_of_mem _ hy

theorem steady_literal {x : Char} {word : Text} (hword : '\n' ∉ x :: word)
    (hx : x ∉ [';', '\x7d']) : S.Steady (Recognizer.literal (x :: word)) := by
  refine steady_of_newline (Recognizer.stable_literal _).bounded
    (Recognizer.newline_literal hword) rfl ?_
  intro y hy t
  refine literal_eq_none (x := x) fun heq => hx ?_
  rw [List.head?_cons] at heq
  rw [← Option.some.inj heq]
  exact hy

/-- Whether a form is found in front of a mark can be seen from its first character. -/
theorem none_of_marks {form : Recognizer} (hsemicolon : ∀ t, form (';' :: t) = none)
    (hbrace : ∀ t, form ('\x7d' :: t) = none) : ∀ x ∈ [';', '\x7d'], ∀ t, form (x :: t) = none := by
  intro x hx
  rcases List.mem_pair.mp hx with rfl | rfl
  · exact hsemicolon
  · exact hbrace

theorem steady_identifier : S.Steady Recognizer.identifier :=
  steady_of_newline Recognizer.stable_identifier.bounded Recognizer.newline_identifier rfl
    (none_of_marks (fun _ => rfl) fun _ => rfl)

theorem identifier_behind {t : Text} (_ : t <:+ S.text) :
    Recognizer.identifier (t ++ S.behind) = Recognizer.identifier t :=
  Recognizer.newline_identifier t _

theorem steady_variable : S.Steady ((char '$').andThen Recognizer.identifier) :=
  (steady_char (by decide)).andThen Recognizer.stable_identifier.bounded identifier_behind

theorem steady_hack : S.Steady hack :=
  (steady_char (by decide)).orElse (steady_char (by decide))

theorem steady_keyword {x : Char} {word : Text} (hword : '\n' ∉ x :: word)
    (hx : x ∉ [';', '\x7d']) :
    S.Steady ((Recognizer.literal (x :: word)).notBefore isNameChar) where
  bounded hn := (Recognizer.stable_literal _).bounded (Lexeme.notBefore_eq_some.mp hn).1
  behind _ := Recognizer.newline_notBefore (Recognizer.stable_literal _)
    (Recognizer.newline_literal hword) rfl _ _
  nil := rfl
  mark := by
    rw [Recognizer.notBefore, (steady_literal hword hx).mark]
    rfl

theorem steady_lineComment : S.Steady Recognizer.lineComment :=
  steady_of_newline Recognizer.stable_lineComment.bounded Recognizer.newline_lineComment rfl
    (none_of_marks (fun _ => rfl) fun _ => rfl)

theorem steady_blockComment : S.Steady Recognizer.blockComment where
  bounded := Recognizer.fixed_blockComment.2.bounded
  behind := blockComment_behind
  nil := rfl
  mark := none_of_marks (fun _ => rfl) (fun _ => rfl) S.mark (by simp [S.mark_cases]) S.more

theorem steady_quoted : S.Steady Recognizer.quoted where
  bounded := Recognizer.fixed_quoted.2.bounded
  behind := quoted_behind
  nil := rfl
  mark := none_of_marks (fun _ => rfl) (fun _ => rfl) S.mark (by simp [S.mark_cases]) S.more

theorem steady_combinator : S.Steady Selector.combinator :=
  steady_of_newline (Recognizer.stable_one _).bounded Selector.newline_combinator rfl
    (none_of_marks (fun _ => rfl) fun _ => rfl)

theorem steady_className : S.Steady Selector.className :=
  (steady_char (by decide)).andThen Recognizer.stable_identifier.bounded identifier_behind

theorem steady_attributeOp : S.Steady Selector.attributeOp :=
  steady_of_newline (Recognizer.bounded_andThen (Recognizer.stable_one _).optional
    (Recognizer.stable_one _))
    Selector.newline_attributeOp rfl (none_of_marks (fun _ => rfl) fun _ => rfl)

theorem steady_notHead : S.Steady Selector.notHead := by
  refine steady_of_newline Recognizer.le_of_caseless Selector.newline_notHead rfl ?_
  exact none_of_marks (fun t => notHead_eq_none (by simp)) fun t => notHead_eq_none (by simp)

theorem steady_pseudoMark : S.Steady Selector.pseudoMark :=
  (steady_char (by decide)).andThen (Recognizer.stable_one _).optional.bounded
    fun _ => Recognizer.newline_optional (newline_char (by decide)) _ _

/-- The forms of a piece that are no production of their own. -/
theorem steady_simple :
    S.Steady (Selector.element.orElse (Selector.hashName.orElse (char '&'))) := by
  refine ((steady_char (by decide)).orElse steady_identifier).orElse
    (Steady.orElse ?_ (steady_char (by decide)))
  refine (steady_char (by decide)).andThen (fun {t n} hn => ?_) fun _ => Recognizer.newline_name _ _
  unfold Recognizer.name at hn
  split at hn
  · cases hn
  · rw [← Option.some.inj hn]
    exact Text.nameLength_le t

/-! ### Names and words -/

theorem Level.place_of_pred (c d : Cursor) (h : S.Level (n - 1) c d) : S.Place n c d :=
  .level (h.mono (Nat.sub_le _ _))

section
variable (hK : S.Tight n K)
include hK

/-- What is passed is a character of the text. -/
theorem lasts_expect {x : Char} (hx : x ∉ ['\n', ';', '\x7d']) :
    S.Lasts doom K (S.Level (n - 1)) (expect x) (expect x) := by
  have hform : S.Steady (char x) := steady_char hx
  intro s t hs
  unfold expect
  rw [bind_apply, bind_apply, passes_apply, passes_apply, hform.rest_eq (hK.place hs.cursor)]
  cases hk : char x s.cursor.rest with
  | none => exact .error _ _ hs.toKin
  | some k =>
    obtain ⟨hlevel, hle⟩ := hform.level (hK.place hs.cursor) hk
    obtain ⟨-, -, rfl⟩ := char_eq_some hk
    exact .ok () (hs.moved (hlevel.advance hle))

theorem lasts_identifier : S.Lasts doom K K identifier identifier := by
  refine lasts_bind (lasts_take? hK steady_identifier) fun name => ?_
  cases name with
  | some name => exact lasts_pure (fun _ _ h => h) name
  | none => exact lasts_fail _

theorem lasts_variableName : S.Lasts doom K K variableName variableName := by
  refine lasts_bind (lasts_take? hK steady_variable) fun name => ?_
  cases name with
  | some name => exact lasts_pure (fun _ _ h => h) _
  | none => exact lasts_fail _

/-! ### Tokens -/

end

variable (S) in
/-- What a lexer comes to in the text and in the whole.  If there are tokens, it began within the
text. -/
inductive Lexed (n : Nat) (s t : State) : EStateM.Result SyntaxError State (List Token × Lexer) →
    EStateM.Result SyntaxError State (List Token × Lexer) → Prop
  | ok (ts : List Token) {l m : Lexer} {u v : State} (ends : S.Beside (S.Place n) u v)
      (same : ts ≠ [] → S.Level n s.cursor t.cursor ∧
        m.previousEnd = l.previousEnd.prolong S.behind) :
      Lexed n s t (.ok (ts, l) u) (.ok (ts, m) v)
  | error (e e' : SyntaxError) : Lexed n s t (.error e s) (.error e' t)

/-- **The tokens up to the mark are the same whatever follows.** -/
theorem lexed_collectUntil {β : Type} {go : β → Token → Option β} (b : β)
    (hgo : ∀ (b : β) (t : Token),
      t.kind = .op .semicolon ∨ t.kind = .op .closeBrace → go b t = none)
    (hs : S.Beside (S.Place n) s t) :
    S.Lexed n s t (lexing (Lexer.collectUntil go b) s) (lexing (Lexer.collectUntil go b) t) := by
  have hplace := hs.cursor
  have hoptions : Lexer.ofCursor t.cursor t.options = .ofCursor t.cursor s.options := by
    rw [hs.options]
  unfold lexing
  rw [hoptions]
  generalize hd : t.cursor = d at hplace ⊢
  cases hplace with
  | past hend =>
    obtain ⟨l, hl, hfront, hwarnings⟩ := collectUntil_of_end s.options hend go b
    obtain ⟨m, hm, hfront', hwarnings'⟩ := collectUntil_of_mark s.options (rest_past hend) b hgo
    simp only [hl]
    rw [hm]
    have hplace : S.Place n l.front m.front := by
      rw [hfront, hfront']
      exact .past hend
    have hgiven : t.warnings ++ m.warnings = s.warnings ++ l.warnings := by
      rw [hwarnings, hwarnings', hs.warnings]
    exact .ok [] { hs with cursor := hplace, warnings := hgiven } fun hne => absurd rfl hne
  | level hlevel =>
    have hquiet := quiet_ofCursor hlevel.toInside s.options
    have hcollected := collectUntil_behind hquiet (b := b) (.inl hgo)
    have hlong :
        Lexer.ofCursor d s.options = (Lexer.ofCursor s.cursor s.options).prolong S.behind := by
      rw [hlevel.same]
      rfl
    rw [hlong]
    generalize Lexer.collectUntil go b (.ofCursor s.cursor s.options) = r,
      Lexer.collectUntil go b ((Lexer.ofCursor s.cursor s.options).prolong S.behind) = r'
      at hcollected ⊢
    cases hcollected with
    | error e e' l m => exact .error e e'
    | @ok ts l m place warnings previousEnd =>
      have hgiven : t.warnings ++ m.warnings = s.warnings ++ l.warnings := by
        rw [warnings, hs.warnings]
      exact .ok ts { hs with cursor := place, warnings := hgiven } fun _ =>
        ⟨hd ▸ hlevel, previousEnd⟩

theorem after_of_mark (stop : Stop) (b : Nesting) (t : Token)
    (h : t.kind = .op .semicolon ∨ t.kind = .op .closeBrace) : b.after stop t = none := by
  unfold Nesting.after
  rcases h with h | h <;> rw [h]

theorem lasts_expression (stop : Stop) :
    S.Lasts doom (S.Place n) (S.Place n) (expression stop) (expression stop) := by
  refine lasts_trivia tight_place fun s t hs => ?_
  have htokens := lexed_collectUntil {} (after_of_mark stop) hs
  simp only [here, bind_apply, get_apply, pure_apply]
  generalize lexing (Lexer.collectUntil (Nesting.after stop) {}) s = r,
    lexing (Lexer.collectUntil (Nesting.after stop) {}) t = r' at htokens ⊢
  cases htokens with
  | error e e' => exact .error e e' hs.toKin
  | @ok ts l m u v ends same =>
    cases ts with
    | nil => exact .error _ _ ends.toKin
    | cons x ts =>
      obtain ⟨hlevel, hprevious⟩ := same (List.cons_ne_nil _ _)
      have htext : m.previousEnd.textSince t.cursor = l.previousEnd.textSince s.cursor := by
        rw [hprevious, hlevel.same, Cursor.textSince_prolong]
      have hline : t.cursor.line = s.cursor.line := by
        rw [hlevel.same]
        rfl
      simp only [List.isEmpty_cons, Bool.false_eq_true, if_false, pure_apply, htext, hline]
      exact .ok _ ends

theorem lasts_some_expression (stop : Stop) :
    S.Lasts doom (S.Place n) (S.Place n) (some <$> expression stop) (some <$> expression stop) :=
  lasts_map (lasts_expression stop)

theorem length_le_of_bangName {t name : Text} {k : Nat} (h : bangName? t = some (name, k)) :
    k ≤ t.length := by
  unfold bangName? at h
  split at h
  · next u =>
    obtain ⟨m, hm, hk⟩ := Option.bind_eq_some_iff.mp h
    have hblanks : Text.blankLength u ≤ u.length := (List.takeWhile_prefix _).length_le
    have hname := Recognizer.stable_identifier.bounded hm
    rw [List.length_drop] at hname
    rw [← (Prod.mk.inj (Option.some.inj hk)).2, List.length_cons]
    omega
  · cases h

theorem lasts_flag (f : Flag) : S.Lasts doom (S.Place n) (S.Place n) (flag f) (flag f) := by
  refine lasts_here_bind fun c d hplace =>
    lasts_trivia tight_place (lasts_here_bind fun c' d' hplace' => ?_)
  have hback : S.Lasts doom (S.Place n) (S.Place n) (do moveTo c; return false)
      (do moveTo d; return false) :=
    lasts_bind (lasts_moveTo hplace) fun _ => lasts_pure (fun _ _ h => h) false
  have hsame : bangName? d'.rest = bangName? c'.rest := by
    cases hplace' with
    | level hlevel => rw [hlevel.rest, bangName_behind]
    | past hend =>
      rw [rest_past hend, hend]
      rcases S.mark_cases with hmark | hmark <;> rw [hmark] <;> rfl
  rw [hsame]
  cases hfound : bangName? c'.rest with
  | none => exact hback
  | some found =>
    obtain ⟨name, k⟩ := found
    have hlevel : S.Level n c' d' := hplace'.level_of_ne fun hnil => by
      rw [hnil] at hfound; cases hfound
    have hbehind := (hlevel.advance (length_le_of_bangName hfound)).mono (Nat.sub_le _ _)
    refine lasts_ite Iff.rfl (fun _ => ?_) fun _ => hback
    exact lasts_bind (lasts_moveTo (.level hbehind)) fun _ => lasts_pure (fun _ _ h => h) true

/-! ### Interpolations and names of properties -/

/-- What follows a form goes on within the text, where the form has been found. -/
theorem lasts_passes_if (hK : S.Tight n K) {form : Recognizer} (hform : S.Steady form)
    {p q : EStateM SyntaxError State β} (hp : ∀ t k, t <:+ S.text → form t = some k → k ≤ n →
      S.Lasts doom (S.Level (n - k)) K' p p) (hq : S.Lasts doom K K' q q) :
    S.Lasts doom K K' (passes form >>= fun found => if found then p else q)
      (passes form >>= fun found => if found then p else q) := by
  intro s t hs
  rw [bind_apply, bind_apply, passes_apply, passes_apply, hform.rest_eq (hK.place hs.cursor)]
  cases hk : form s.cursor.rest with
  | none => exact hq s t hs
  | some k =>
    obtain ⟨hlevel, hle⟩ := hform.level (hK.place hs.cursor) hk
    have hbound : k ≤ n := Nat.le_trans (s.cursor.left_eq ▸ hle) hlevel.bound
    exact hp _ k hlevel.suffix hk hbound _ _ (hs.moved (hlevel.advance hle))

/-- An interpolation that is closed in the text is passed in both.  One that is left open may go on
behind a semicolon. -/
theorem lasts_interpolation (hK : S.Tight n K) (hdoom : S.mark = ';' → doom) :
    S.Lasts doom K K interpolation interpolation := by
  have hopening : S.Steady (Recognizer.literal ['#', '\x7b']) :=
    steady_literal (by decide) (by decide)
  refine lasts_passes_if hK hopening (fun u k hu hk hle => ?_) (lasts_pure (fun _ _ h => h) false)
  have hmark : S.mark = ';' := by
    refine S.mark_cases.resolve_right fun hbrace => not_opening hbrace ?_
    obtain ⟨⟨v, hv⟩, -⟩ := Recognizer.literal_eq_some.mp hk
    exact List.IsInfix.trans ⟨[], v, by rw [← hv]; rfl⟩ hu.isInfix
  intro s t hs
  have hlevel := hs.cursor
  have hlong :
      Lexer.ofCursor t.cursor t.options = (Lexer.ofCursor s.cursor s.options).prolong S.behind := by
    rw [hs.options, hlevel.same]
    rfl
  rw [bind_apply, bind_apply]
  unfold lexing
  rw [hlong]
  cases hshort : Lexer.interpolation (.ofCursor s.cursor s.options) with
  | error e l => exact .doomed e s _ (hdoom hmark)
  | ok ts l =>
    obtain ⟨m, hm, hfront, hwarnings⟩ :=
      interpolation_behind (quiet_ofCursor hlevel.toInside s.options) hshort
    have hgiven : t.warnings ++ m.warnings = s.warnings ++ l.warnings := by
      rw [hwarnings, hs.warnings]
    rw [hm]
    exact .ok true { hs with cursor := hK.level (hfront.mono (Nat.sub_le _ _)), warnings := hgiven }

theorem lasts_namePiece (hK : S.Tight n K) (hdoom : S.mark = ';' → doom) :
    S.Lasts doom K K namePiece namePiece :=
  lasts_orM (lasts_passes hK steady_identifier) (lasts_interpolation hK hdoom)

end Seam
end Stylesheet
