import Stylesheet.Proofs.OpenName
import Stylesheet.Proofs.SeamSelectors

/-!
# Statements in front of a seam

Every statement of a text is read in the same way where the text goes on.
-/
namespace Stylesheet
namespace Seam

open Grammar

variable {S : Seam} {n : Nat} {α : Type} {doom : Prop} {K K' K'' : Cursor → Cursor → Prop}
  {c d : Cursor} {s t : State}

theorem Level.line_eq (h : S.Level n c d) : d.line = c.line := by
  rw [h.same]
  rfl

/-- What ends a statement at the end of the text ends it at the mark. -/
theorem stops_eq {p : Char → Bool} (hp : ∀ x ∈ [';', '\x7d'], p x = true) (h : S.Settled n c d) :
    (d.atEnd || d.sees (Recognizer.one p)) = (c.atEnd || c.sees (Recognizer.one p)) := by
  by_cases hend : c.rest = []
  · have hmark : d.sees (Recognizer.one p) = true := by
      rw [Cursor.sees, h.stop hend, Recognizer.one, if_pos (hp S.mark (by simp [S.mark_cases]))]
      rfl
    rw [hmark, Bool.or_true, Cursor.atEnd, hend]
    rfl
  · obtain ⟨x, u, hrest⟩ := List.exists_cons_of_ne_nil hend
    have hrest' : d.rest = x :: (u ++ S.behind) := by
      rw [(h.place.level_of_ne hend).rest, hrest]; rfl
    rw [Cursor.atEnd, Cursor.atEnd, Cursor.sees, Cursor.sees, hrest, hrest']
    rfl

/-! ### Directives -/

namespace Directive

open Grammar.Directive

theorem lasts_list {p : Production α}
    (hends : ∀ s r, Loop (fun () => item p) () s r ↔ unfold State.size (fun () => item p) () s = r)
    (h : S.Lasts True (S.Place n) (S.Place n) p p) :
    S.Lasts True (S.Place n) (S.Place n) (list p) (list p) := by
  have hP : S.Tight n (S.Place n) := tight_place
  have hopen : S.Lasts True (S.Place n) (S.Place n) (expect '(') (expect '(') :=
    (lasts_expect hP (by decide)).mono (fun _ _ h => h) Level.place_of_pred
  have hclose : S.Lasts True (S.Place n) (S.Place n) (expect ')') (expect ')') :=
    (lasts_expect hP (by decide)).mono (fun _ _ h => h) Level.place_of_pred
  refine lasts_bind hopen fun _ =>
    lasts_trivia hP (lasts_bind (lasts_passes hP (steady_char (by decide))) fun _ => ?_)
  refine lasts_ite Iff.rfl (fun _ => lasts_pure (fun _ _ h => h) []) fun _ => lasts_unfold hends ?_
  refine lasts_bind h fun a =>
    lasts_trivia hP (lasts_bind (lasts_passes hP (steady_char (by decide))) fun _ => ?_)
  refine lasts_ite Iff.rfl (fun _ => lasts_pure (fun _ _ h => h) _) fun _ => ?_
  exact lasts_bind hclose fun _ => lasts_pure (fun _ _ h => h) _

theorem lasts_parameter : S.Lasts True (S.Place n) (S.Place n) parameter parameter := by
  have hP : S.Tight n (S.Place n) := tight_place
  refine lasts_trivia hP (lasts_bind (lasts_variableName hP) fun name => ?_)
  refine lasts_trivia hP (lasts_bind (lasts_passes hP (steady_char (by decide))) fun _ => ?_)
  refine lasts_ite Iff.rfl (fun _ => ?_) fun _ => lasts_pure (fun _ _ h => h) _
  exact lasts_bind (lasts_expression _) fun e => lasts_pure (fun _ _ h => h) _

theorem lasts_inclusion (line : Nat) :
    S.Lasts True (S.Place n) (S.Place n) (inclusion line) (inclusion line) := by
  have hP : S.Tight n (S.Place n) := tight_place
  refine lasts_trivia hP
    (lasts_bind (lasts_identifier hP) fun name => lasts_here_bind fun c d hplace => ?_)
  refine lasts_trivia hP (lasts_bind (lasts_sees hP (steady_char (by decide))) fun _ => ?_)
  refine lasts_ite Iff.rfl (fun _ => ?_) fun _ => ?_
  · exact lasts_bind (lasts_list progresses.arguments.ends (lasts_expression _)) fun es =>
      lasts_pure (fun _ _ h => h) _
  · exact lasts_bind (lasts_moveTo hplace) fun _ => lasts_pure (fun _ _ h => h) _

/-- A second production goes on where the first one fails in both texts. -/
theorem lasts_orElse {p p' q q' : Production α}
    (h : ∀ s t, S.Beside K s t → (∃ a u v, p s = .ok a u ∧ p' t = .ok a v ∧ S.Beside K' u v) ∨
      ∃ e u e' v, p s = .error e u ∧ p' t = .error e' v ∧ S.Beside K'' u v)
    (hq : S.Lasts doom K'' K' q q') :
    S.Lasts doom K K' (p <|> q) (p' <|> q') := by
  intro s t hs
  rw [orElse_apply, orElse_apply]
  rcases h s t hs with ⟨a, u, v, hshort, hlong, ends⟩ | ⟨e, u, e', v, hshort, hlong, ends⟩
  · rw [hshort, hlong]
    exact .ok a ends
  · rw [hshort, hlong]
    exact hq u v ends

/-- Where there is no expression, the place is given back in both texts. -/
theorem asExpression_cases (h : S.Level n c d) (hs : S.Beside (S.Settled n) s t) :
    (∃ text u v, value.asExpression c s = .ok text u ∧ value.asExpression d t = .ok text v ∧
      S.Beside (S.Place n) u v) ∨
    ∃ e u e' v, value.asExpression c s = .error e u ∧ value.asExpression d t = .error e' v ∧
      S.Beside (S.Level n) u v := by
  have hrun : S.Lasting False _ _ _ :=
    lasts_expression .statement s t (hs.mono fun _ _ h => h.place)
  unfold value.asExpression
  generalize expression .statement s = r, expression .statement t = r' at hrun ⊢
  cases hrun with
  | ok e ends => exact .inl ⟨_, _, _, rfl, rfl, ends⟩
  | error e e' ends => exact .inr ⟨_, _, _, _, rfl, rfl, { ends with cursor := h }⟩
  | doomed e s _ h => exact h.elim

theorem lasts_value : S.Lasts True (S.Place n) (S.Place n) value value := by
  refine lasts_here_bind fun c d hplace => lasts_skipTrivia_bind tight_place fun _ _ => ?_
  refine lasts_here_bind fun c' d' hsettled =>
    lasts_ite (by rw [stops_eq (by simp) hsettled]) (fun _ => ?_) fun hgoes => ?_
  · exact lasts_bind (lasts_moveTo hplace) fun _ => lasts_pure (fun _ _ h => h) none
  · have hne : c'.rest ≠ [] := by
      intro hend
      rw [Cursor.atEnd, hend] at hgoes
      exact hgoes rfl
    exact lasts_orElse (fun _ _ hs => asExpression_cases (hsettled.place.level_of_ne hne) hs)
      (lasts_map lasts_groupText)

/-- A branch behind its `@else`, which stands on a line. -/
def behindElse (line : Nat) : Production (List Alternative × Option Unit) := do
  let _ ← skipTrivia
  let condition ← if ← keyword "if" then some <$> expression .statement else pure none
  let _ ← skipTrivia
  let children ← block
  return ([⟨condition, line, children⟩], if condition.isSome then some () else none)

/-- A branch if an `@else` comes next on a line, or else nothing, and back to a place. -/
def elseOr (start : Cursor) (line : Nat) :
    Production (List Alternative × Option Unit) := do
  if ← keyword "@else" then
    behindElse line
  else
    moveTo start
    return ([], none)

theorem alternative_eq :
    alternative block = (do
      let start ← here
      let _ ← skipTrivia
      elseOr start (← here).line) := rfl

section
variable (hblock : S.Lasts True (S.Place n) (S.Place n) block block)
include hblock

theorem lasts_definition (line : Nat) :
    S.Lasts True (S.Place n) (S.Place n) (definition block line) (definition block line) := by
  have hP : S.Tight n (S.Place n) := tight_place
  refine lasts_trivia hP (lasts_bind (lasts_identifier hP) fun name => lasts_trivia hP ?_)
  refine lasts_bind (lasts_sees hP (steady_char (by decide))) fun _ => ?_
  have hrest : ∀ ps : List Parameter, S.Lasts True (S.Place n) (S.Place n) (do
      let _ ← skipTrivia
      return ⟨.definition ⟨name, ps⟩, line, ← block⟩) (do
      let _ ← skipTrivia
      return (⟨.definition ⟨name, ps⟩, line, ← block⟩ : Node)) :=
    fun ps => lasts_trivia hP (lasts_bind hblock fun _ => lasts_pure (fun _ _ h => h) _)
  refine lasts_ite Iff.rfl (fun _ => ?_) fun _ => hrest []
  exact lasts_bind (lasts_list progresses.parameters.ends lasts_parameter) hrest

theorem lasts_behindElse (line : Nat) :
    S.Lasts True (S.Place n) (S.Place n) (behindElse line) (behindElse line) := by
  have hP : S.Tight n (S.Place n) := tight_place
  refine lasts_trivia hP
    (lasts_bind (lasts_passes hP (steady_keyword (by decide) (by decide))) fun _ => ?_)
  have hrest : ∀ condition : Option Expression, S.Lasts True (S.Place n) (S.Place n) (do
      let _ ← skipTrivia
      let children ← block
      return ([(⟨condition, line, children⟩ : Alternative)], if condition.isSome then some ()
        else none)) (do
      let _ ← skipTrivia
      let children ← block
      return ([(⟨condition, line, children⟩ : Alternative)], if condition.isSome then some ()
        else none)) :=
    fun condition => lasts_trivia hP (lasts_bind hblock fun _ => lasts_pure (fun _ _ h => h) _)
  exact lasts_ite Iff.rfl (fun _ => lasts_bind (lasts_some_expression _) hrest) fun _ => hrest none

theorem lasts_alternative :
    S.Lasts True (S.Place n) (S.Place n) (alternative block) (alternative block) := by
  have hword : S.Steady ((Recognizer.literal "@else".toList).notBefore isNameChar) :=
    steady_keyword (by decide) (by decide)
  rw [alternative_eq]
  refine lasts_here_bind fun c d hplace => lasts_trivia tight_place fun s t hs => ?_
  -- Where an `@else` comes next the text has not ended, so it is on the same line.
  have hline : elseOr d t.cursor.line t = elseOr d s.cursor.line t := by
    by_cases hend : s.cursor.rest = []
    · have hnone : keyword "@else" t = .ok false t :=
        passes_of_none ((hword.rest_eq hs.cursor).trans (hend ▸ hword.nil))
      unfold elseOr
      rw [bind_apply, bind_apply, hnone]
      rfl
    · rw [(hs.cursor.level_of_ne hend).line_eq]
  have hrest :
      S.Lasts True (S.Place n) (S.Place n) (elseOr c s.cursor.line) (elseOr d s.cursor.line) := by
    refine lasts_bind (lasts_passes tight_place hword) fun _ => ?_
    refine lasts_ite Iff.rfl (fun _ => lasts_behindElse hblock _) fun _ => ?_
    exact lasts_bind (lasts_moveTo hplace) fun _ => lasts_pure (fun _ _ h => h) _
  have hlast := hrest s t hs
  rw [← hline] at hlast
  exact hlast

theorem lasts_loop (line : Nat) :
    S.Lasts True (S.Place n) (S.Place n) (loop block line) (loop block line) :=
  lasts_bind (lasts_expression _) fun _ =>
    lasts_trivia tight_place (lasts_bind hblock fun _ => lasts_pure (fun _ _ h => h) _)

theorem lasts_atRule (name : Text) (line : Nat) :
    S.Lasts True (S.Place n) (S.Place n) (atRule block name line) (atRule block name line) := by
  have hP : S.Tight n (S.Place n) := tight_place
  refine lasts_bind lasts_value fun value => lasts_here_bind fun c d hplace => lasts_trivia hP ?_
  refine lasts_bind (lasts_sees hP (steady_char (by decide))) fun _ =>
    lasts_ite Iff.rfl (fun _ => ?_) fun _ => ?_
  · exact lasts_bind hblock fun _ => lasts_pure (fun _ _ h => h) _
  · exact lasts_bind (lasts_moveTo hplace) fun _ => lasts_pure (fun _ _ h => h) _

theorem lasts_branch (line : Nat) :
    S.Lasts True (S.Place n) (S.Place n) (branch block line) (branch block line) := by
  refine lasts_bind (lasts_expression _) fun e =>
    lasts_trivia tight_place (lasts_bind hblock fun ns => ?_)
  exact lasts_bind (lasts_unfold progresses.branches.ends (lasts_alternative hblock)) fun as =>
    lasts_pure (fun _ _ h => h) _

end

end Directive

theorem lasts_directive (hblock : S.Lasts True (S.Place n) (S.Place n) block block) :
    S.Lasts True (S.Level n) (S.Place n) (directive block) (directive block) := by
  refine lasts_here_bind fun c d hlevel => ?_
  rw [hlevel.line_eq]
  refine lasts_bind
    ((lasts_expect tight_level (by decide)).mono (fun _ _ h => h) Level.place_of_pred) fun _ => ?_
  refine lasts_bind (lasts_identifier tight_place) fun name => ?_
  split
  · exact Directive.lasts_definition hblock _
  · exact Directive.lasts_inclusion _
  · exact Directive.lasts_branch hblock _
  · exact lasts_throw _ _
  · exact Directive.lasts_loop hblock _
  · exact lasts_bind (lasts_expression _) fun _ => lasts_pure (fun _ _ h => h) _
  · exact lasts_bind (lasts_expression _) fun _ => lasts_pure (fun _ _ h => h) _
  · exact Directive.lasts_atRule hblock name _

/-! ### Statements without blocks -/

theorem lasts_comment : S.Lasts True (S.Level n) (S.Level n) comment comment := by
  refine lasts_here_bind fun c d hlevel => ?_
  rw [hlevel.line_eq]
  refine lasts_bind (lasts_take? tight_level steady_blockComment) fun text => ?_
  cases text with
  | some text => exact lasts_pure (fun _ _ h => h) _
  | none =>
    refine lasts_bind (lasts_take? tight_level steady_lineComment) fun text => ?_
    cases text with
    | some text => exact lasts_pure (fun _ _ h => h) _
    | none => exact lasts_pure (fun _ _ h => h) _

theorem lasts_assignment : S.Lasts True (S.Level n) (S.Place n) assignment assignment := by
  have hP : S.Tight n (S.Place n) := tight_place
  refine lasts_here_bind fun c d hlevel => ?_
  rw [hlevel.line_eq]
  refine lasts_bind (lasts_variableName tight_level) fun name => lasts_trivia tight_level ?_
  refine lasts_bind ((lasts_expect hP (by decide)).mono (fun _ _ h => h) Level.place_of_pred)
    fun _ => ?_
  refine lasts_bind (lasts_expression _) fun e => lasts_bind (lasts_flag _) fun _ => ?_
  exact lasts_pure (fun _ _ h => h) _

/-! ### Rulesets and declarations -/

theorem lasts_ruleset (hblock : S.Lasts True (S.Place n) (S.Place n) block block) :
    S.Lasts True (S.Level n) (S.Place n) (ruleset block) (ruleset block) := by
  refine lasts_here_bind fun c d hlevel => ?_
  rw [hlevel.line_eq]
  refine lasts_bind lasts_groupText fun text =>
    lasts_trivia tight_place (lasts_bind hblock fun _ => ?_)
  exact lasts_pure (fun _ _ h => h) _

/-- There is no ruleset at a state, whatever the blocks and attempts before it were. -/
def NoRuleset (s : State) : Prop :=
  ∀ b k r, ∃ e u, ruleset block (s.reframe b k r) = .error e u

theorem noRuleset_of_spacedName (h : SpacedName s) : NoRuleset s := by
  intro b k r
  obtain ⟨e, u, herror, -⟩ := ruleset_of_spacedName blockRule_block.opens (h.reframe b k r)
  exact ⟨e, u, herror⟩

theorem noRuleset_of_openName (h : OpenName s) (hparen : '(' ∉ s.cursor.rest) : NoRuleset s :=
  fun b k r => ruleset_of_openName block (h.reframe b k r) hparen

theorem Lasting.during {p q : Production α} {committed : Bool}
    (h : S.Lasting doom K (p s) (q t)) :
    S.Lasting doom K (during committed p s) (during committed q t) := by
  unfold Grammar.during
  generalize p s = r, q t = r' at h ⊢
  cases h with
  | ok a ends => exact .ok a ends
  | error e e' ends => exact .error _ _ ends
  | doomed e s _ h => exact .doomed _ s _ h

/-- A value ends at the mark.  Only where a space precedes it may it have a block of nested
declarations, and only that can be the doom of the attempt. -/
theorem lasts_declarationValue (hblock : S.Lasts True (S.Place n) (S.Place n) block block)
    (name : Text) (line : Nat) {spaced : Bool} (hdoom : spaced = true → doom) :
    S.Lasts doom (S.Place n) (S.Place n) (declarationValue block name line spaced)
      (declarationValue block name line spaced) := by
  have hP : S.Tight n (S.Place n) := tight_place
  have hbrace : S.Steady (char '{') := steady_char (by decide)
  have hrest : ∀ value : Option Expression, S.Lasts doom (S.Place n) (S.Place n) (do
      let important ← flag .important
      let behind ← here
      let _ ← skipTrivia
      if ← sees (char '{') then
        unless spaced do
          fail "\";\""
        return ⟨.property name value important, line, ← block⟩
      else
        moveTo behind
        return .leaf (.property name value important) line) (do
      let important ← flag .important
      let behind ← here
      let _ ← skipTrivia
      if ← sees (char '{') then
        unless spaced do
          fail "\";\""
        return (⟨.property name value important, line, ← block⟩ : Node)
      else
        moveTo behind
        return .leaf (.property name value important) line) := by
    intro value
    refine lasts_bind (lasts_flag _) fun important => lasts_here_bind fun c d hplace =>
      lasts_trivia hP ?_
    refine lasts_bind (lasts_sees hP hbrace) fun _ => lasts_ite Iff.rfl (fun _ => ?_) fun _ => ?_
    · refine lasts_check _ fun hspaced => ?_
      exact lasts_bind (fun u v h => (hblock u v h).mono (fun _ => hdoom hspaced) fun _ _ h => h)
        fun _ =>
        lasts_pure (fun _ _ h => h) _
    · exact lasts_bind (lasts_moveTo hplace) fun _ => lasts_pure (fun _ _ h => h) _
  refine lasts_bind (lasts_andM (lasts_pure (fun _ _ h => h) _) (lasts_sees hP hbrace)) fun _ => ?_
  exact lasts_ite Iff.rfl (fun _ => hrest none) fun _ => lasts_bind (lasts_some_expression _) hrest

/-- The name of a property ends within the text, or an interpolation in it is left open. -/
theorem lasting_propertyName (hs : S.Beside (S.Level n) s t)
    (hdoom : S.mark = ';' → ∀ e v, repeatWhile State.size namePiece s = .error e v → doom) :
    S.Lasting doom (S.Level n) (propertyName s) (propertyName t) := by
  have hpieces :=
    lasts_repeatWhile progresses.propertyName.ends (lasts_namePiece tight_level id) s t hs
  have hnamed : S.Lasting doom (S.Level n) (repeatWhile State.size namePiece s)
      (repeatWhile State.size namePiece t) := by
    generalize hr : repeatWhile State.size namePiece s = r,
      repeatWhile State.size namePiece t = r' at hpieces ⊢
    cases hpieces with
    | ok a ends => exact .ok a ends
    | error e e' ends => exact .error e e' ends
    | doomed e u _ hmark => exact .doomed e u _ (hdoom hmark e u hr)
  refine Lasting.bind (f := fun _ => here >>= fun stop =>
      if s.cursor.offset < stop.offset then pure () else fail "identifier")
    (g := fun _ => here >>= fun stop =>
      if t.cursor.offset < stop.offset then pure () else fail "identifier")
    hnamed fun _ u v _ ends => ?_
  refine lasts_here_bind
    (fun c d hlevel => lasts_ite ?_ (fun _ => ?_) fun _ => lasts_fail _) u v ends
  · rw [hlevel.offset_eq, hs.cursor.offset_eq]
  · exact lasts_pure (fun _ _ h => h) ()

/-- The name of a declaration with its colon. -/
theorem lasting_name (hstart : S.Level n c d) (hs : S.Beside (S.Level n) s t)
    (hdoom : S.mark = ';' → ∀ e v, repeatWhile State.size namePiece s = .error e v → doom) :
    S.Lasting doom (S.Level n) ((do
      propertyName
      let name := (← here).textSince c
      let _ ← skipTrivia
      expect ':'
      return name) s) ((do
      propertyName
      let name := (← here).textSince d
      let _ ← skipTrivia
      expect ':'
      return name) t) := by
  refine (lasting_propertyName hs hdoom).bind fun _ u v _ ends => ?_
  refine lasts_here_bind (fun c' d' hlevel => ?_) u v ends
  rw [hlevel.same, hstart.same, Cursor.textSince_prolong]
  refine lasts_trivia tight_level (lasts_bind (lasts_expect tight_place (by decide)) fun _ => ?_)
  exact lasts_pure (fun _ _ h => h.mono (Nat.sub_le _ _)) _

/-! At the end of the text there is no value, whether a newline follows or not. -/

theorem expression_of_end (stop : Stop) (hs : S.Beside (S.Place n) s t)
    (hend : s.cursor.rest = []) :
    ∃ e u e' v, expression stop s = .error e u ∧ expression stop t = .error e' v ∧ S.Kin u v := by
  have hrun : S.Lasting False _ _ _ := lasts_expression stop s t hs
  obtain ⟨e, u, herror⟩ : ∃ e u, expression stop s = .error e u := by
    obtain ⟨l, hl, -⟩ := collectUntil_of_end s.options hend (Nesting.after stop) {}
    have hskip : skipTrivia s = .ok false s :=
      passes_of_none (Recognizer.trivia_eq_none_iff.mpr (hend ▸ Text.triviaLength_of_none rfl))
    have htokens : lexing (Lexer.collectUntil (Nesting.after stop) {}) s =
        .ok ([], l) { s with cursor := l.front, warnings := s.warnings ++ l.warnings } := by
      unfold lexing
      rw [hl]
    unfold expression here
    simp only [bind_apply, hskip, get_apply, pure_apply, htokens]
    exact ⟨_, _, rfl⟩
  rw [herror] at hrun
  generalize hlong : expression stop t = r' at hrun
  cases hrun with
  | error _ e' ends => exact ⟨e, u, e', _, herror, rfl, ends⟩
  | doomed _ _ _ h => exact h.elim

theorem declarationValue_of_end (hs : S.Beside (S.Place n) s t) (hend : s.cursor.rest = [])
    (name : Text) (line : Nat) (spaced spaced' : Bool) :
    ∃ e u e' v, declarationValue block name line spaced s = .error e u ∧
      declarationValue block name line spaced' t = .error e' v ∧ S.Kin u v := by
  obtain ⟨e, u, e', v, hshort, hlong, ends⟩ := expression_of_end .statement hs hend
  have hbrace : S.Steady (char '{') := steady_char (by decide)
  have hvalue : ∀ {w x : State} {e : SyntaxError} (spaced : Bool), char '{' w.cursor.rest = none →
      expression .statement w = .error e x →
      declarationValue block name line spaced w = .error e x := by
    intro w x e spaced hnone herror
    have hsees : sees (char '{') w = .ok false w := by
      rw [sees_apply, hnone]
      rfl
    have hempty : (pure spaced <&&> sees (char '{') : Production Bool) w = .ok false w := by
      cases spaced with
      | false => rfl
      | true => exact hsees
    unfold declarationValue
    rw [bind_apply, hempty]
    simp only [Bool.false_eq_true, if_false, bind_apply, map_apply, herror]
  have hnone : char '{' s.cursor.rest = none := by rw [hend]; rfl
  exact ⟨e, u, e', v, hvalue _ hnone hshort,
    hvalue _ ((hbrace.rest_eq hs.cursor).trans hnone) hlong, ends⟩

/-- Within the text there is space behind a colon in both texts or in neither. -/
theorem lasting_gap (hs : S.Beside (S.Level n) s t) (hne : s.cursor.rest ≠ []) :
    S.Lasting doom (S.Place n) (skipTrivia s) (skipTrivia t) := by
  have hzero : t.cursor.rest.triviaLength = 0 ↔ s.cursor.rest.triviaLength = 0 := by
    rw [hs.cursor.rest, triviaLength_behind hs.cursor.suffix]
    have hpos : s.cursor.rest.length ≠ 0 := fun hlength => hne (List.length_eq_zero_iff.mp hlength)
    split <;> omega
  have hspaced :
      (Recognizer.trivia t.cursor.rest).isSome = (Recognizer.trivia s.cursor.rest).isSome := by
    rw [← Bool.not_inj_iff, Option.not_isSome, Option.not_isSome, Bool.eq_iff_iff,
      Option.isNone_iff_eq_none, Option.isNone_iff_eq_none, Recognizer.trivia_eq_none_iff,
      Recognizer.trivia_eq_none_iff, hzero]
  have hplace := (Place.level hs.cursor : S.Place n s.cursor t.cursor).skip_trivia.place
  rw [skipTrivia_apply, skipTrivia_apply, hspaced]
  exact .ok _ (hs.moved hplace)

theorem lasting_value_of_end (hs : S.Beside (S.Level n) s t) (hend : s.cursor.rest = [])
    (marked : Bool) (name : Text) (line : Nat) :
    S.Lasting doom K ((do
      let spaced ← during marked skipTrivia
      let named ← during marked (sees Recognizer.identifier)
      during (marked || spaced || !named) (declarationValue block name line spaced)) s) ((do
      let spaced ← during marked skipTrivia
      let named ← during marked (sees Recognizer.identifier)
      during (marked || spaced || !named) (declarationValue block name line spaced)) t) := by
  have hplace := (Place.level hs.cursor : S.Place n s.cursor t.cursor).skip_trivia.place
  have hend' : (s.cursor.skip Recognizer.trivia).rest = [] := by
    rw [Cursor.skip_trivia_of_end hend, hend]
  obtain ⟨e, u, e', v, hshort, hlong, ends⟩ :=
    declarationValue_of_end (hs.moved hplace) hend' name line
    (Recognizer.trivia s.cursor.rest).isSome (Recognizer.trivia t.cursor.rest).isSome
  simp only [bind_apply, during_of_ok marked (skipTrivia_apply _), during_of_ok marked sees_apply]
  unfold during
  rw [hshort, hlong]
  exact .error _ _ ends

theorem lasting_during_here_bind {committed : Bool} {f g : Cursor → Attempt α}
    (h : S.Lasting doom K (f s.cursor s) (g t.cursor t)) :
    S.Lasting doom K ((during committed here >>= f) s) ((during committed here >>= g) t) := h

/-- The space behind a colon, if there is any in the text, is that of a spaced name. -/
theorem spacedName_of_run {marked : Bool} {u v w : State} {start : Cursor} {name : Text}
    (hs : s.cursor.rest <:+ S.text) (hmark : passes hack s = .ok marked u)
    (hname : (do
      propertyName
      let name := (← here).textSince start
      let _ ← skipTrivia
      expect ':'
      return name) u = .ok name v) (hspaced : skipTrivia v = .ok true w) : SpacedName s := by
  obtain ⟨x, hpieces, hlt, rest, hrest, rfl⟩ := name_of_ok hname
  have hmarked := ((plain_passes hack s (.refl s.cursor)).of_ok hmark).1.ahead
  have hahead : s.cursor.Before (x.cursor.skip Recognizer.trivia) :=
    ((plain_repeatWhile plain_namePiece u hmarked).of_ok hpieces).1.ahead.skip _
  have htrivia : (Recognizer.trivia rest).isSome = true := by
    rw [skipTrivia_apply] at hspaced
    have hsome := (EStateM.Result.ok.inj hspaced).1
    rwa [Cursor.rest_advance, hrest] at hsome
  refine ⟨marked, u, x, hmark, hpieces, hlt, atColon_of_trivia hrest htrivia ?_⟩
  rintro y ⟨behind, hbehind⟩ -
  obtain ⟨before, hbefore, -⟩ := hahead.exists_text
  refine S.ascii y (hs.subset ?_)
  rw [hbefore, ← hbehind]
  simp

/-- **An attempt to read a declaration comes to the same whatever follows**, unless there is no
ruleset in the text either. -/
theorem lasting_declaration (hblock : S.Lasts True (S.Place n) (S.Place n) block block)
    (hs : S.Beside (S.Level n) s t) :
    S.Lasting (NoRuleset s) (S.Place n) (declaration block s) (declaration block t) := by
  refine lasting_during_here_bind ?_
  rw [hs.cursor.line_eq]
  refine (lasts_passes tight_level steady_hack s t hs).during.bind fun marked s₁ t₁ hmark hs₁ => ?_
  refine Lasting.bind (Lasting.during (lasting_name hs.cursor hs₁ ?_))
    fun name s₂ t₂ hname hs₂ => ?_
  · intro hsemicolon e v hopen
    refine noRuleset_of_openName ⟨marked, s₁, e, v, of_during hmark, hopen⟩ fun hparen => ?_
    have hbrace := (mark_of_paren (hs.cursor.suffix.subset hparen)).1
    rw [hsemicolon] at hbrace
    exact absurd hbrace (by decide)
  · by_cases hend : s₂.cursor.rest = []
    · exact lasting_value_of_end hs₂ hend marked name _
    · refine (lasting_gap hs₂ hend).during.bind fun spaced s₃ t₃ hspaced hs₃ => ?_
      refine (lasts_sees tight_place steady_identifier s₃ t₃ hs₃).during.bind
        fun named s₄ t₄ _ hs₄ => ?_
      refine (lasts_declarationValue hblock name _ (fun htrue => ?_) s₄ t₄ hs₄).during
      subst htrue
      exact noRuleset_of_spacedName
        (spacedName_of_run hs.cursor.suffix (of_during hmark) (of_during hname) (of_during hspaced))

theorem atStatementEnd_eq (h : S.Place n c d) : atStatementEnd d = atStatementEnd c := by
  unfold atStatementEnd
  exact stops_eq (by simp) h.skip_trivia

/-- A declaration may end at the end of the text, and before the mark. -/
theorem atEndOfDeclaration_eq (hs : S.Beside (S.Place n) s t) :
    t.atEndOfDeclaration = s.atEndOfDeclaration := by
  unfold State.atEndOfDeclaration
  rw [atStatementEnd_eq hs.cursor]
  rcases hs.cursor.level_or_past with hlevel | ⟨hend, -⟩
  · unfold State.atBlockEnd
    rw [hs.blockEnd, hlevel.offset_eq]
  · have hstop : atStatementEnd s.cursor = true := by
      unfold atStatementEnd
      simp only [Cursor.skip_trivia_of_end hend, Cursor.atEnd, hend]
      rfl
    rw [hstop, Bool.or_true, Bool.or_true]

theorem beside_giveUp (hs : S.Beside (S.Level n) s t) {u v : State} (h : S.Kin u v) :
    S.Beside (S.Level n) (u.giveUp s) (v.giveUp t) := by
  unfold State.giveUp
  rw [h.rollback.1, h.rollback.2]
  exact { options := h.options, blockEnd := h.blockEnd, ended := h.ended, warnings := hs.warnings,
          rollback := ⟨rfl, rfl⟩, cursor := hs.cursor }

/-- An attempt that fails leaves the options as they were. -/
theorem options_of_declaration (hs : S.Beside (S.Level n) s t) {e : Rejected} {u : State}
    (h : declaration block s = .error e u) : u.options = s.options := by
  have hascii : ∀ x, [':', x] <:+: s.cursor.rest → isBlank x = true → x.toNat ≤ 0x7F :=
    fun x hx _ => S.ascii x (hs.cursor.suffix.subset (hx.subset (by simp)))
  have hrun := lockstep_declaration (lockstep_block (o := s.options) hascii) s
    (s.reframe s.blockEnd s.backtracks .everything) ⟨.refl _, rfl, hs.rollback.1, s.backtracks, rfl⟩
  rw [h] at hrun
  generalize declaration block (s.reframe s.blockEnd s.backtracks .everything) = r' at hrun
  cases hrun with
  | error _ _ options _ => exact options.1

/-- **What the text is read as, a declaration or a ruleset, it is read as whatever follows.** -/
theorem lasts_declarationOrRuleset (hblock : S.Lasts True (S.Place n) (S.Place n) block block) :
    S.Lasts True (S.Level n) (S.Place n) (declarationOrRuleset block)
      (declarationOrRuleset block) := by
  intro s t hs
  have hrun := lasting_declaration hblock hs
  unfold declarationOrRuleset
  generalize hr : declaration block s = r, declaration block t = r' at hrun ⊢
  cases hrun with
  | @ok node u v ends =>
    simp only [atEndOfDeclaration_eq ends]
    by_cases hend : u.atEndOfDeclaration = true
    · simp only [if_pos hend]
      exact .ok node ends
    · simp only [if_neg hend]
      exact lasts_ruleset hblock _ _ (beside_giveUp hs ends.toKin)
  | @error e e' u v ends =>
    have hretry := lasts_ruleset hblock _ _ (beside_giveUp hs ends)
    simp only
    generalize ruleset block (u.giveUp s) = r, ruleset block (v.giveUp t) = r' at hretry ⊢
    cases hretry with
    | ok node ends => exact .ok node ends
    | error _ _ ends => exact .error _ _ ends
    | doomed _ _ _ _ => exact .doomed _ _ _ trivial
  | doomed e u _ hno =>
    obtain ⟨b, k, hgiven⟩ := giveUp_eq (options_of_declaration hs hr)
    obtain ⟨e', v, herror⟩ := hno b k u.rollback
    simp only [hgiven, herror]
    exact .doomed _ _ _ trivial

theorem lasts_statement (hblock : S.Lasts True (S.Place n) (S.Place n) block block) :
    S.Lasts True (S.Level n) (S.Place n) (statement block) (statement block) := by
  refine lasts_bind (lasts_sees tight_level (steady_char (by decide))) fun _ => ?_
  refine lasts_ite Iff.rfl (fun _ => lasts_assignment) fun _ => ?_
  refine lasts_bind (lasts_sees tight_level (steady_char (by decide))) fun _ => ?_
  exact lasts_ite Iff.rfl (fun _ => lasts_directive hblock) fun _ =>
    lasts_declarationOrRuleset hblock

end Seam
end Stylesheet
