import Stylesheet.Proofs.Flags
import Stylesheet.Proofs.TextWarnings
import Stylesheet.Proofs.Termination

/-!
# What declining leaves behind

A production that may find something else than it looks for says so in its answer, and the one
behind it then reads the same text.  So it has to give back everything: the place, the warnings, and
what is known of blocks (`Declining`).  Some never take anything before they know (`keyword`,
`comment`), some go back to where they started (`flag`, `Directive.value`, `Selector.pseudoPiece`),
and some leave their lexer aside (`Selector.run`).

For the parts of a selector it is enough to look at the place.  They read no blocks, and warn of
nothing but of the text they pass; so if they pass none, the state is the same in all else as well
(`declining_of_declines`).  Where they take something, they end further in the text than they began
(`Tries`): this is what ends the loops over them.

`tentative` says both of all productions that decline.
-/
namespace Stylesheet
namespace Grammar

variable {α β : Type}

/-! ### Declining -/

/-- Where a production gives a certain answer, it leaves the state as it was. -/
def Declining (declined : α) (p : Production α) : Prop :=
  ∀ s t, p s = .ok declined t → t = s

/-- A production has an answer in every state. -/
def Answers (p : Production α) : Prop :=
  ∀ s, ∃ a t, p s = .ok a t

/-- A production gives a certain answer in no state. -/
def Never (a : α) (p : Production α) : Prop :=
  ∀ s t, p s ≠ .ok a t

/-- A production declines without a trace, or ends further in the text than it began. -/
structure Tries (p : Production Bool) : Prop where
  declines : Declining false p
  advances : Advances id p

theorem never_pure {a b : α} (h : b ≠ a) : Never a (pure b : Production α) := by
  rintro s t ⟨⟩
  exact h rfl

theorem never_after {p : Production β} {f : β → Production α} {a : α} (h : ∀ b, Never a (f b)) :
    Never a (p >>= f) := by
  intro s t hrun
  obtain ⟨b, u, -, hrun⟩ := exists_of_bind hrun
  exact h b u t hrun

theorem never_ite {P : Prop} [Decidable P] {p q : Production α} {a : α} (hp : Never a p)
    (hq : Never a q) : Never a (if P then p else q) := by
  split
  · exact hp
  · exact hq

theorem never_map {p : Production β} {f : β → α} {a : α} (h : ∀ b, f b ≠ a) :
    Never a (f <$> p) := by
  intro s t hrun
  rw [map_apply] at hrun
  cases hp : p s with
  | error e u =>
    rw [hp] at hrun
    cases hrun
  | ok b u =>
    rw [hp] at hrun
    exact h b (EStateM.Result.ok.inj hrun).1

theorem never_orElse {p q : Production α} {a : α} (hp : Never a p) (hq : Never a q) :
    Never a (p <|> q) := by
  intro s t hrun
  rw [orElse_apply] at hrun
  cases hfirst : p s with
  | error e u =>
    rw [hfirst] at hrun
    exact hq u t hrun
  | ok b u =>
    rw [hfirst] at hrun
    exact hp s t (hfirst.trans hrun)

/-- A production that reads no blocks and warns only of the text it passes changes nothing where it
passes none. -/
theorem declining_of_declines {p : Production Bool} (hplain : ∀ c, Plain c p)
    (hcovers : ∀ c o, Covers c o p) (h : Selector.Declines p) : Declining false p := by
  intro s t hrun
  have hcursor : t.cursor = s.cursor := h s t hrun
  have hwarnings : t.warnings = s.warnings :=
    ((hcovers s.cursor s.options s (.refl _) rfl).of_ok hrun).warnings_eq hcursor
  have hrest := hplain s.cursor s (.refl _)
  have hoptions : t.options = s.options := (hrest.of_ok hrun).1.options
  obtain ⟨hblockEnd, hbacktracks, hrollback⟩ := hrest.same_of_ok hrun
  cases s
  cases t
  cases hcursor
  cases hwarnings
  cases hoptions
  cases hblockEnd
  cases hbacktracks
  cases hrollback
  rfl

theorem declining_passes (form : Recognizer) : Declining false (passes form) :=
  declining_of_declines (fun _ => plain_passes form) (fun _ _ => covers_passes form)
    (Selector.declines_passes form)

theorem answers_passes (form : Recognizer) : Answers (passes form) := by
  intro s
  rw [passes_apply]
  cases form s.cursor.rest with
  | none => exact ⟨_, _, rfl⟩
  | some n => exact ⟨_, _, rfl⟩

theorem declining_flag (f : Flag) : Declining false (flag f) := by
  intro s t h
  rw [flag_apply] at h
  split at h
  · split at h
    · cases h
    · exact (EStateM.Result.ok.inj h).2.symm
  · exact (EStateM.Result.ok.inj h).2.symm

theorem answers_flag (f : Flag) : Answers (flag f) := by
  intro s
  rw [flag_apply]
  split
  · split
    · exact ⟨_, _, rfl⟩
    · exact ⟨_, _, rfl⟩
  · exact ⟨_, _, rfl⟩

theorem declining_comment : Declining none comment := by
  intro s t h
  rw [comment_apply] at h
  split at h
  · cases h
  · cases h
  · exact (EStateM.Result.ok.inj h).2.symm

theorem answers_comment : Answers comment := by
  intro s
  rw [comment_apply]
  split
  · exact ⟨_, _, rfl⟩
  · exact ⟨_, _, rfl⟩
  · exact ⟨_, _, rfl⟩

/-! ### Directives -/

namespace Directive

/-- The argument of a general directive is missing only where nothing but the end of the directive
comes next. -/
theorem declining_value : Declining none value := by
  have hexpression : ∀ start, Never none (value.asExpression start) := by
    intro start s t h
    unfold value.asExpression at h
    cases hrun : expression .statement s with
    | ok e u =>
      rw [hrun] at h
      cases h
    | error e u =>
      rw [hrun] at h
      cases h
  intro s t h
  unfold value at h
  simp only [bind_apply, here, get_apply, pure_apply, skipTrivia_apply] at h
  split at h
  · exact (EStateM.Result.ok.inj h).2.symm
  · exact absurd h (never_orElse (hexpression _) (never_map fun _ => Option.some_ne_none _) _ _)

/-- The branch behind another one, with those behind it, if an `@else` comes next. -/
def otherwise (block : Production (List Node)) : Production (Option Node) :=
  chain <$> unfold State.size (fun () => alternative block) ()

/-- A branch reads its condition and its block, and then those behind it. -/
theorem branch_eq (block : Production (List Node)) (line : Nat) :
    branch block line = (do
      let condition ← expression .statement
      let _ ← skipTrivia
      let children ← block
      return ⟨.branch (some condition) (← otherwise block), line, children⟩) := by
  unfold branch otherwise
  simp only [bind_map_left]

/-- **The branch behind another one reads those behind itself by the same rule.** -/
theorem otherwise_eq : otherwise block = (do
    let round ← alternative block
    let behind ← if round.2.isSome then otherwise block else pure none
    return round.1.foldr (fun a behind => some ⟨.branch a.condition behind, a.line, a.children⟩)
      behind) := by
  funext s
  unfold otherwise
  rw [map_apply, unfold_apply, bind_apply]
  cases hround : alternative block s with
  | error e t => rfl
  | ok found t =>
    obtain ⟨found, next⟩ := found
    cases next with
    | none => rfl
    | some next =>
      -- A branch behind which another may come has taken something, so the comparison never ends
      -- the chain.
      have hlt := progresses.branches.advances.size_lt hround rfl
      simp only [if_pos hlt, Option.isSome_some, if_true, bind_map_left, bind_apply]
      cases unfold State.size (fun () => alternative block) () t with
      | error e u => rfl
      | ok more u => exact congrArg (EStateM.Result.ok · u) List.foldr_append

/-- Where no `@else` comes next, nothing more is read. -/
theorem alternative_eq_nil {block : Production (List Node)} {s t : State} {next : Option Unit}
    (h : alternative block s = .ok ([], next) t) : next = none ∧ t = s := by
  have hfound : ∀ line, Never ([], next) (do
      let _ ← skipTrivia
      let condition ← if ← keyword "if" then some <$> expression .statement else pure none
      let _ ← skipTrivia
      let children ← block
      return ([(⟨condition, line, children⟩ : Alternative)], if condition.isSome then some ()
        else none)) := by
    intro line
    have hblock : ∀ condition : Option Expression, Never ([], next) (do
        let _ ← skipTrivia
        let children ← block
        return ([(⟨condition, line, children⟩ : Alternative)], if condition.isSome then some ()
          else none)) :=
      fun condition => never_after fun _ => never_after fun children => never_pure (by simp)
    refine never_after fun _ => never_after fun conditional => never_ite ?_ ?_
    · exact never_after hblock
    · exact never_after hblock
  replace h :
      (skipTrivia >>= fun _ => here >>= fun place => keyword "@else" >>= fun found =>
        if found then _ else
          moveTo s.cursor >>= fun _ => pure ([], none)) s = .ok ([], next) t := h
  rw [bind_apply, skipTrivia_apply] at h
  obtain ⟨found, u, hword, h⟩ := exists_of_bind (p := keyword "@else") h
  cases found with
  | true => exact absurd h (hfound _ _ _)
  | false =>
    rw [declining_passes _ _ _ hword] at h
    cases h
    exact ⟨rfl, rfl⟩

theorem declining_otherwise : Declining none (otherwise block) := by
  intro s t h
  rw [otherwise_eq] at h
  obtain ⟨⟨found, next⟩, u, hround, hrest⟩ := exists_of_bind h
  cases found with
  | nil =>
    obtain ⟨rfl, rfl⟩ := alternative_eq_nil hround
    exact (EStateM.Result.ok.inj hrest).2.symm
  | cons a found =>
    have hbranch : ∀ behind, Never none (pure ((a :: found).foldr
        (fun a behind => some ⟨.branch a.condition behind, a.line, a.children⟩) behind) :
        Production (Option Node)) :=
      fun behind => never_pure (Option.some_ne_none _)
    exact absurd hrest (never_ite (never_after hbranch) (never_after hbranch) u t)

end Directive

/-! ### Selectors -/

theorem tries_of_declines {p : Production Bool} (hplain : ∀ c, Plain c p)
    (hcovers : ∀ c o, Covers c o p) (hpasses : ∀ c n, Passes c n p) (h : Selector.Declines p) :
    Tries p :=
  ⟨declining_of_declines hplain hcovers h, advances_of_passes hpasses⟩

namespace Selector

/-- A run of tokens leaves the errors of its lexer aside. -/
theorem answers_run : Answers run := by
  intro s
  rw [run_apply]
  split
  · split
    · exact ⟨_, _, rfl⟩
    · exact ⟨_, _, rfl⟩
  · exact ⟨_, _, rfl⟩

end Selector

/-! ### All of them -/

/-- What is said of the productions that decline: they leave no trace, those without errors have an
answer, and the parts of a selector end further in the text if they do not decline. -/
structure Tentative : Prop where
  flags : ∀ f, Declining false (flag f) ∧ Answers (flag f)
  keywords : ∀ word, Declining false (keyword word) ∧ Answers (keyword word)
  comments : Declining none comment ∧ Answers comment
  branches : Declining none (Directive.otherwise block)
  values : Declining none Directive.value
  runs : Tries Selector.run ∧ Answers Selector.run
  sequences : Tries Selector.sequence
  pieces : Tries (Selector.piece Selector.sequence)
  classes : Tries Selector.classPiece
  attributes : Tries Selector.attributePiece
  negations : Tries (Selector.negationPiece Selector.sequence)
  pseudos : Tries Selector.pseudoPiece
  interpolations : Tries interpolation

open Selector in
/-- **Productions that decline leave no trace.**  In every state, a production that declines leaves
exactly the state that it found, and a part of a selector that does not decline ends further in the
text than it began. -/
theorem tentative : Tentative where
  flags f := ⟨declining_flag f, answers_flag f⟩
  keywords _ := ⟨declining_passes _, answers_passes _⟩
  comments := ⟨declining_comment, answers_comment⟩
  branches := Directive.declining_otherwise
  values := Directive.declining_value
  runs :=
    ⟨tries_of_declines (fun _ => plain_run) (fun _ _ => covers_run)
      (fun _ _ => passes_run) declines_run,
    answers_run⟩
  sequences := tries_of_declines (fun _ => plain_sequence) (fun _ _ => covers_sequence)
    (fun _ _ => passes_sequence) declines_sequence
  pieces := tries_of_declines (fun _ => plain_piece plain_sequence)
    (fun _ _ => covers_piece covers_sequence) (fun _ _ => passes_piece fun _ => plain_sequence)
    (declines_piece _)
  classes := tries_of_declines (fun _ => plain_classPiece) (fun _ _ => covers_classPiece)
    (fun _ _ => passes_classPiece) declines_classPiece
  attributes := tries_of_declines (fun _ => plain_attributePiece) (fun _ _ => covers_attributePiece)
    (fun _ _ => passes_attributePiece) declines_attributePiece
  negations := tries_of_declines (fun _ => plain_negationPiece plain_sequence)
    (fun _ _ => covers_negationPiece covers_sequence)
    (fun _ _ => passes_negationPiece fun _ => plain_sequence)
    (declines_negationPiece _)
  pseudos := tries_of_declines (fun _ => plain_pseudoPiece) (fun _ _ => covers_pseudoPiece)
    (fun _ _ => passes_pseudoPiece) declines_pseudoPiece
  interpolations :=
    tries_of_declines (fun _ => plain_interpolation) (fun _ _ => covers_interpolation)
    (fun _ _ => passes_interpolation) declines_interpolation

/-- A colon that was passed is given back where no name is behind it, and it is passed with a
name. -/
theorem tentative_colon :
    (∃ t, Selector.pseudoPiece (.start [':', ' ', 'b'] {}) = .ok false t ∧
      t = .start [':', ' ', 'b'] {}) ∧
    ∃ t, Selector.pseudoPiece (.start [':', 'b'] {}) = .ok true t ∧ 0 < t.cursor.offset := by
  constructor
  · obtain ⟨found, t, hrun, hfound⟩ := exists_of_answers
      (r := Selector.pseudoPiece (.start [':', ' ', 'b'] {})) (p := fun found _ => found == false)
      (by decide +kernel)
    rw [eq_of_beq hfound] at hrun
    exact ⟨t, hrun, tentative.pseudos.declines _ t hrun⟩
  · obtain ⟨found, t, hrun, hfound⟩ := exists_of_answers
      (r := Selector.pseudoPiece (.start [':', 'b'] {})) (p := fun found _ => found == true)
      (by decide +kernel)
    rw [eq_of_beq hfound] at hrun
    exact ⟨t, hrun, (tentative.pseudos.advances _ true t hrun rfl).2⟩

end Grammar
end Stylesheet
