import Stylesheet.Proofs.Deprecations
import Stylesheet.Proofs.SelectorSpan

/-!
# The warnings of what is kept as text

The names of properties and the selectors are kept as text, and the lexers that read the
interpolations and the tokens in them may warn.  `Covers` says of a production that it warns of
nothing but the text that it passes: if that text gives no warnings, the production leaves none.  So
a production that goes back to where it started warns of nothing, and the trimmed text of a group of
selectors says whether it may have given warnings (`Lexer.Bare.of_trim`).
-/
namespace Stylesheet

/-! ### Trimming -/

/-- What has no white space at its ends is a part of a text exactly where it is a part of the
trimmed text. -/
theorem Text.infix_trim {t u : Text} (h : t <:+: u) (hfirst : ∀ x ∈ t.head?, isBlank x = false)
    (hlast : ∀ x ∈ t.getLast?, isBlank x = false) : t <:+: u.trim := by
  -- Dropping from the front stops at the latest where the part begins.
  have hdrop : ∀ {t u : Text}, t <:+: u → (∀ x ∈ t.head?, isBlank x = false) →
      t <:+: u.dropWhile isBlank := by
    rintro t _ ⟨before, behind, rfl⟩ hfirst
    cases t with
    | nil => exact List.nil_infix
    | cons x t =>
      have hx : isBlank x = false := hfirst x rfl
      rw [List.append_assoc, List.dropWhile_append]
      split
      · rw [List.cons_append, List.dropWhile_cons_of_neg (by rw [hx]; exact Bool.false_ne_true)]
        exact List.infix_append [] _ _
      · rw [← List.append_assoc]
        exact List.infix_append _ _ _
  refine List.reverse_infix.mp ?_
  rw [Text.trim, List.reverse_reverse]
  refine hdrop (List.reverse_infix.mpr (hdrop h hfirst)) ?_
  rwa [List.head?_reverse]

open Recognizer Recognizer.specialHead in
/-- A special function begins with a hyphen or a letter. -/
theorem isBlank_of_specialHead {t : Text} {n : Nat} (h : specialHead t = some n) :
    ∀ x ∈ t.head?, isBlank x = false := by
  have hletter : ∃ y ∈ ['-', 'c', 'e', 'p'], t.head?.map foldCase = some y := by
    obtain ⟨k, hk, -⟩ := andThen_eq_some.mp h
    rcases orElse_eq_some.mp hk with hk | ⟨-, hk⟩
    · rcases head?_of_calculation hk with hc | hc
      · exact ⟨_, by decide, hc⟩
      · exact ⟨_, by decide, hc⟩
    · rcases orElse_eq_some.mp hk with hk | ⟨-, hk⟩
      · exact ⟨_, by decide, head?_of_caseless hk⟩
      · obtain ⟨m, hm, -⟩ := andThen_eq_some.mp hk
        exact ⟨_, by decide, head?_of_caseless hm⟩
  intro x hx
  obtain ⟨y, hy, hfold⟩ := hletter
  rw [Option.mem_def.mp hx, Option.map_some, Option.some.injEq] at hfold
  have hother : ∀ y ∈ ['-', 'c', 'e', 'p'], y ≠ 's' ∧ y ≠ 'k' ∧ isBlank y = false := by
    simp only [List.forall_mem_cons]
    exact ⟨by decide, by decide, by decide, by decide, List.forall_mem_nil _⟩
  obtain ⟨hs, hk, hblank⟩ := hother y hy
  rcases Grammar.foldCase_eq hs hk hfold with rfl | ⟨hlow, hhigh, -⟩
  · exact hblank
  · refine Bool.eq_false_iff.mpr fun hblank => ?_
    simp only [isBlank, Bool.or_eq_true, Bool.and_eq_true, decide_eq_true_eq, beq_iff_eq] at hblank
    omega

namespace Lexer

variable {c : Cursor} {o : Options}

/-- The text of a special function has no white space at its ends. -/
theorem Overruns.ends {d : Cursor} {n : Nat} (h : Overruns o d n) :
    (∀ x ∈ (d.rest.take n).head?, isBlank x = false) ∧
      ∀ x ∈ (d.rest.take n).getLast?, isBlank x = false := by
  obtain ⟨head, body, -, -, hhead, hbody, rfl, -⟩ := h
  have hpos := Recognizer.positive_specialHead _ _ hhead
  refine ⟨?_, fun x hx => ?_⟩
  · rw [List.head?_take, if_neg (by omega)]
    exact isBlank_of_specialHead hhead
  · obtain ⟨u, v, hrest, rfl⟩ := Text.closingParen?_eq_some hbody
    have htake : d.rest.take (head + (u.length + 1)) = d.rest.take head ++ (u ++ [')']) := by
      rw [Cursor.rest_advance] at hrest
      rw [List.take_add, hrest, ← List.singleton_append, ← List.append_assoc]
      congr 1
      exact List.take_left' (by simp)
    rw [htake, ← List.append_assoc, List.getLast?_concat] at hx
    cases hx
    decide

/-- White space at its ends does not matter to whether a text gives warnings. -/
theorem Bare.of_trim {t : Text} (h : Bare c o t.trim) : Bare c o t where
  mark hmem := by
    obtain ⟨before, behind, rfl⟩ := List.append_of_mem hmem
    have hmark : ['!'] <:+: Text.trim (before ++ '!' :: behind) := by
      refine Text.infix_trim ⟨before, behind, by simp⟩ ?_ ?_
      · rintro x ⟨⟩
        decide
      · rintro x ⟨⟩
        decide
    exact h.mark (hmark.subset List.mem_cons_self)
  contained d n hd hover hpart :=
    h.contained d n hd hover (Text.infix_trim hpart hover.ends.1 hover.ends.2)

end Lexer

namespace Grammar

open Lexer (Bare bare_nil)

variable {ε α β : Type} {c : Cursor} {o : Options} {s t u : State}

/-! ### Productions without lexers -/

/-- A production that leaves the warnings as they are. -/
def Mute (p : EStateM ε State α) : Prop :=
  ∀ s, Ends p s (fun _ t => t.warnings = s.warnings) (fun _ t => t.warnings = s.warnings)

theorem mute_pure (a : α) : Mute (pure a : EStateM ε State α) :=
  fun _ => rfl

theorem mute_throw (e : ε) : Mute (throw e : EStateM ε State α) :=
  fun _ => rfl

theorem mute_moveTo (d : Cursor) : Mute (moveTo d) :=
  fun _ => rfl

theorem mute_bind {p : EStateM ε State α} {f : α → EStateM ε State β} (hp : Mute p)
    (hf : ∀ a, Mute (f a)) : Mute (p >>= f) := by
  intro s
  refine ends_bind.mpr ((hp s).mono (fun a t ht => ?_) fun _ _ h => h)
  exact (hf a t).mono (fun _ _ h => h.trans ht) fun _ _ h => h.trans ht

theorem mute_ite {P : Prop} [Decidable P] {p q : EStateM ε State α} (hp : Mute p) (hq : Mute q) :
    Mute (if P then p else q) := by
  split
  · exact hp
  · exact hq

theorem mute_orM {p q : Production Bool} (hp : Mute p) (hq : Mute q) : Mute (p <||> q) := by
  refine mute_bind hp fun found => ?_
  cases found with
  | true => exact mute_pure true
  | false => exact hq

theorem mute_andM {p q : Production Bool} (hp : Mute p) (hq : Mute q) : Mute (p <&&> q) := by
  refine mute_bind hp fun found => ?_
  cases found with
  | true => exact hq
  | false => exact mute_pure false

theorem mute_here : Mute here :=
  fun _ => rfl

theorem mute_fail (expected : String) : Mute (fail expected : Production α) :=
  mute_bind mute_here fun _ => mute_throw _

theorem mute_sees (form : Recognizer) : Mute (sees form) :=
  mute_bind mute_here fun _ => mute_pure _

theorem mute_take? (form : Recognizer) : Mute (take? form) := by
  refine mute_bind mute_here fun d => ?_
  split
  · exact mute_pure _
  · exact mute_bind (mute_moveTo _) fun _ => mute_pure _

theorem mute_passes (form : Recognizer) : Mute (passes form) :=
  mute_bind (mute_take? form) fun _ => mute_pure _

theorem mute_skipTrivia : Mute skipTrivia :=
  mute_passes _

theorem mute_keyword (word : String) : Mute (keyword word) :=
  mute_passes _

theorem mute_expect (x : Char) : Mute (expect x) :=
  mute_bind (mute_passes _) fun _ => mute_ite (mute_pure _) (mute_fail _)

theorem mute_identifier : Mute identifier := by
  refine mute_bind (mute_take? _) fun name => ?_
  split
  · exact mute_pure _
  · exact mute_fail _

theorem mute_variableName : Mute variableName := by
  refine mute_bind (mute_take? _) fun name => ?_
  split
  · exact mute_pure _
  · exact mute_fail _

theorem mute_flag (f : Flag) : Mute (flag f) := by
  have hback : ∀ d, Mute (do moveTo d; return false) :=
    fun d => mute_bind (mute_moveTo d) fun _ => mute_pure _
  refine mute_bind mute_here fun start => mute_bind mute_skipTrivia fun _ =>
    mute_bind mute_here fun d => ?_
  split
  · exact mute_ite (mute_bind (mute_moveTo _) fun _ => mute_pure _) (hback start)
  · exact hback start

theorem mute_listEnds (nested : Bool) : Mute (listEnds nested) :=
  mute_bind mute_here fun _ => mute_pure _

theorem mute_during {p : Production α} (committed : Bool) (h : Mute p) :
    Mute (during committed p) := by
  intro s
  have hrun := h s
  unfold Ends at hrun ⊢
  unfold during
  cases hresult : p s <;> rw [hresult] at hrun <;> exact hrun

/-- A later state that differs only in its place, and in what blocks and attempts use. -/
structure Still (s t : State) : Prop where
  forward : s.cursor.Before t.cursor
  options : t.options = s.options
  warnings : t.warnings = s.warnings

theorem Still.refl (s : State) : Still s s :=
  ⟨.refl _, rfl, rfl⟩

theorem Still.trans (h : Still s t) (h' : Still t u) : Still s u :=
  ⟨h.forward.trans h'.forward, h'.options.trans h.options, h'.warnings.trans h.warnings⟩

/-! ### What a production adds to the warnings -/

/-- A state ahead of a place, with the warnings of an earlier state and more of them, of which
something is known. There are none if they are not asked for. -/
structure Gains (c : Cursor) (o : Options) (s t : State) (good : List Deprecation → Prop) :
    Prop where
  ahead : c.Before t.cursor
  options : t.options = o
  warnings : ∃ ws, t.warnings = s.warnings ++ ws ∧ (o.quiet = true → ws = []) ∧ good ws

/-- What is known of a state behind a failure. -/
structure Lapsed (o : Options) (s t : State) : Prop where
  options : t.options = o
  quiet : o.quiet = true → t.warnings = s.warnings

/-- What is known of a state behind a failure is known of one that has gained warnings, too. -/
theorem Gains.lapsed {good : List Deprecation → Prop} (h : Gains c o s t good) : Lapsed o s t where
  options := h.options
  quiet hquiet := by
    obtain ⟨ws, hws, hnone, -⟩ := h.warnings
    rw [hws, hnone hquiet, List.append_nil]

/-- What follows fails. -/
theorem Gains.lapse {good : List Deprecation → Prop} (h : Gains c o s t good) (h' : Lapsed o t u) :
    Lapsed o s u where
  options := h'.options
  quiet hquiet := (h'.quiet hquiet).trans (h.lapsed.quiet hquiet)

theorem Gains.mono {good good' : List Deprecation → Prop} (h : Gains c o s t good)
    (hgood : ∀ ws, good ws → good' ws) : Gains c o s t good' := by
  obtain ⟨ahead, options, ws, hws, hquiet, hknown⟩ := h
  exact ⟨ahead, options, ws, hws, hquiet, hgood ws hknown⟩

/-- What was added first and what was added then. -/
theorem Gains.trans {good good' : List Deprecation → Prop} (h : Gains c o s t good)
    (h' : ∀ ws, good ws → Gains c o t u fun ws' => good' (ws ++ ws')) : Gains c o s u good' := by
  obtain ⟨ws, hws, hquiet, hknown⟩ := h.warnings
  obtain ⟨ahead, options, ws', hws', hquiet', hknown'⟩ := h' ws hknown
  refine ⟨ahead, options, ws ++ ws', ?_, fun hq => ?_, hknown'⟩
  · rw [hws', hws, List.append_assoc]
  · rw [hquiet hq, hquiet' hq, List.append_nil]

/-- Options that ask for no warnings get none. -/
theorem reported_of_quiet {ds : List Deprecation} : o.quiet = true → o.reported ds = [] :=
  fun hquiet => if_pos hquiet

/-- A production that warns of nothing, and reads no blocks, leaves a state that is still the
same. -/
theorem ends_still {p : EStateM ε State α} (hp : ∀ d, Plain d p) (hmute : Mute p)
    (ho : s.options = o) : Ends p s (fun _ t => Still s t) (fun _ t => Lapsed o s t) := by
  have hplain := hp s.cursor s (.refl _)
  have hsame := hmute s
  unfold PlainAt Ends at hplain
  unfold Ends at hsame ⊢
  cases hrun : p s with
  | ok a t =>
    rw [hrun] at hplain hsame
    exact ⟨hplain.1.ahead, hplain.1.options, hsame⟩
  | error e t =>
    rw [hrun] at hplain hsame
    exact ⟨hplain.1.options.trans ho, fun _ => hsame⟩

/-! ### Productions that warn of the text they pass -/

/-- A state that was reached by passing a text, with no more warnings if that text gives none. -/
structure Covered (c : Cursor) (o : Options) (s t : State) : Prop where
  forward : s.cursor.Before t.cursor
  gains : Gains c o s t fun ws => Bare c o (t.cursor.textSince s.cursor) → ws = []

theorem covered_of_same (hs : c.Before s.cursor) (ho : s.options = o)
    (hforward : s.cursor.Before t.cursor) (hoptions : t.options = s.options)
    (hwarnings : t.warnings = s.warnings) : Covered c o s t :=
  ⟨hforward, hs.trans hforward, hoptions.trans ho, [], by rw [hwarnings, List.append_nil],
    fun _ => rfl, fun _ => rfl⟩

/-- If there is nothing to warn of in what was passed in all, there is nothing in its parts. -/
theorem Covered.trans (h : Covered c o s t) (h' : Covered c o t u) : Covered c o s u where
  forward := h.forward.trans h'.forward
  gains := by
    refine h.gains.trans fun ws hws => h'.gains.mono fun ws' hws' hbare => ?_
    rw [hws (hbare.mono ((Cursor.Before.refl _).infix_textSince h.forward h'.forward)),
      hws' (hbare.mono (h.forward.infix_textSince h'.forward (.refl _))), List.append_nil]

/-- Where nothing was passed, there are no more warnings. -/
theorem Covered.warnings_eq (h : Covered c o s t) (hsame : t.cursor = s.cursor) :
    t.warnings = s.warnings := by
  obtain ⟨ws, hws, -, hnone⟩ := h.gains.warnings
  rw [hsame, (Cursor.Before.refl s.cursor).textSince_eq_nil] at hnone
  rw [hws, hnone (bare_nil c o), List.append_nil]

/-- A production that moves forward ahead of a place and warns only of the text it passes. -/
def Covers (c : Cursor) (o : Options) (p : EStateM ε State α) : Prop :=
  ∀ s, c.Before s.cursor → s.options = o →
    Ends p s (fun _ t => Covered c o s t) (fun _ t => Lapsed o s t)

/-- A production without warnings adds none, whatever it passes. -/
theorem covers_of_mute {p : EStateM ε State α} (hp : ∀ d, Plain d p) (hmute : Mute p) :
    Covers c o p := by
  intro s hs ho
  refine (ends_still hp hmute ho).mono (fun _ t ht => ?_) fun _ _ h => h
  exact covered_of_same hs ho ht.forward ht.options ht.warnings

/-- What each of two productions passes is a part of what both of them pass. -/
theorem covers_bind {p : EStateM ε State α} {f : α → EStateM ε State β} (hp : Covers c o p)
    (hf : ∀ a, Covers c o (f a)) : Covers c o (p >>= f) := by
  intro s hs ho
  refine ends_bind.mpr ((hp s hs ho).mono (fun a t ht => ?_) fun _ _ h => h)
  refine (hf a t ht.gains.ahead ht.gains.options).mono (fun _ _ hu => ht.trans hu) fun _ _ hu => ?_
  exact ht.gains.lapse hu

theorem covers_pure (a : α) : Covers c o (pure a : EStateM ε State α) :=
  covers_of_mute (fun _ => plain_pure a) (mute_pure a)

theorem covers_here_bind {f : Cursor → Production α} (h : ∀ d, Covers c o (f d)) :
    Covers c o (here >>= f) :=
  fun s hs ho => h s.cursor s hs ho

theorem covers_passes (form : Recognizer) : Covers c o (passes form) :=
  covers_of_mute (fun _ => plain_passes form) (mute_passes form)

theorem covers_skipTrivia : Covers c o skipTrivia :=
  covers_passes _

theorem covers_fail (expected : String) : Covers c o (fail expected : Production α) :=
  covers_of_mute (fun _ => plain_fail expected) (mute_fail expected)

theorem covers_ite {P : Prop} [Decidable P] {p q : EStateM ε State α} (hp : Covers c o p)
    (hq : Covers c o q) : Covers c o (if P then p else q) := by
  split
  · exact hp
  · exact hq

theorem covers_check {P : Prop} [Decidable P] {f : Unit → Production α} (expected : String)
    (h : Covers c o (f ())) : Covers c o (if P then f () else fail expected >>= f) :=
  covers_ite h (covers_bind (covers_fail _) fun _ => h)

theorem covers_orM {p q : Production Bool} (hp : Covers c o p) (hq : Covers c o q) :
    Covers c o (p <||> q) := by
  refine covers_bind hp fun found => ?_
  cases found with
  | true => exact covers_pure true
  | false => exact hq

theorem covers_repeatWhile {step : Production Bool} (h : Covers c o step) :
    Covers c o (repeatWhile State.size step) := by
  refine covers_bind (fun s hs ho => ?_) fun _ => covers_pure _
  refine Ends.unfold (fun _ _ t => Covered c o s t) ?_ (covered_of_same hs ho (.refl _) rfl rfl)
  intro _ _ t ht
  refine ends_bind.mpr
    ((h t ht.gains.ahead ht.gains.options).mono (fun again u hu => ?_) fun _ _ hu => ?_)
  · have hboth := ht.trans hu
    cases again with
    | false => exact hboth
    | true =>
      show if u.size < t.size then _ else _
      split <;> exact hboth
  · exact ht.gains.lapse hu

theorem covers_recurse {stuck : EStateM ε State α} {rule : EStateM ε State α → EStateM ε State α}
    (hstuck : Covers c o stuck) (hrule : ∀ p, Covers c o p → Covers c o (rule p)) :
    Covers c o (recurse State.size stuck rule) := by
  intro s hs ho
  refine Ends.recurse (fun t => c.Before t.cursor ∧ t.options = o) (fun t ht => hstuck t ht.1 ht.2)
    (fun p hp t ht => ?_) ⟨hs, ho⟩
  exact hrule p (fun u hu ho => hp u ⟨hu, ho⟩) t ht.1 ht.2

/-! ### Lexers inside names and selectors -/

/-- What the lexer inside a production adds are the warnings of its tokens. -/
theorem covered_of_lexing {l : Lexer} {ts : List Token} (hs : c.Before s.cursor)
    (ho : s.options = o) (hforward : s.cursor.Before l.front)
    (hwarnings : l.warnings = o.reported (Token.deprecationsOf o.filename ts))
    (hbare : Bare c o (l.front.textSince s.cursor) → Token.deprecationsOf o.filename ts = []) :
    Covered c o s { s with cursor := l.front, warnings := s.warnings ++ l.warnings } := by
  refine ⟨hforward, hs.trans hforward, ho, l.warnings, rfl, fun hquiet => ?_, fun hclean => ?_⟩
  · rw [hwarnings, reported_of_quiet hquiet]
  · rw [hwarnings, hbare hclean, Options.reported_nil]

theorem covers_collectUntil (go : β → Token → Option β) (b : β) :
    Covers c o (lexing (Lexer.collectUntil go b)) := by
  rintro s hs rfl
  unfold Ends lexing
  cases hrun : Lexer.collectUntil go b (.ofCursor s.cursor s.options) with
  | error e l => exact ⟨rfl, fun _ => rfl⟩
  | ok ts l =>
    obtain ⟨hwarnings, e, hse, hel, -, hbare⟩ := Lexer.told_of_collectUntil hs hrun
    refine covered_of_lexing hs rfl (hse.trans hel) hwarnings fun hclean => hbare (hclean.mono ?_)
    exact (Cursor.Before.refl _).infix_textSince hse hel

theorem covers_lexing_interpolation : Covers c o (lexing Lexer.interpolation) := by
  rintro s hs rfl
  have hforward := plain_lexing_interpolation s (.refl s.cursor)
  unfold PlainAt at hforward
  unfold Ends lexing at hforward ⊢
  cases hrun : Lexer.interpolation (.ofCursor s.cursor s.options) with
  | error e l => exact ⟨rfl, fun _ => rfl⟩
  | ok ts l =>
    rw [hrun] at hforward
    obtain ⟨hwarnings, hbare⟩ := Lexer.told_of_interpolation hs hrun
    exact covered_of_lexing hs rfl hforward.1.ahead hwarnings hbare

theorem covers_interpolation : Covers c o interpolation :=
  covers_bind (covers_passes _) fun _ =>
    covers_ite (covers_bind covers_lexing_interpolation fun _ => covers_pure _) (covers_pure _)

theorem covers_propertyName : Covers c o propertyName := by
  have hpiece : Covers c o namePiece := covers_orM (covers_passes _) covers_interpolation
  refine covers_here_bind fun _ => covers_bind (covers_repeatWhile hpiece) fun _ => ?_
  exact covers_here_bind fun _ => covers_ite (covers_pure _) (covers_fail _)

/-! ### Going back -/

/-- No warnings came since. -/
theorem Still.gains (h : Still s t) (hs : c.Before s.cursor) (ho : s.options = o) :
    Gains c o s t (· = []) :=
  ⟨hs.trans h.forward, h.options.trans ho, [], by rw [h.warnings, List.append_nil],
    fun _ => rfl, rfl⟩

theorem Still.covered (h : Still s t) (hs : c.Before s.cursor) (ho : s.options = o) :
    Covered c o s t :=
  covered_of_same hs ho h.forward h.options h.warnings

/-- What was passed without warnings may be given back. -/
theorem Still.back (h : Still s t) (hs : c.Before s.cursor) (ho : s.options = o) :
    Covered c o s { t with cursor := s.cursor } :=
  covered_of_same hs ho (.refl _) h.options h.warnings

section
variable {post : β → State → Prop}

/-- What follows a production that warns of nothing. -/
theorem Still.ends_bind (h : Still s t) (ho : s.options = o) {p : EStateM ε State α}
    {f : α → EStateM ε State β} (hp : ∀ d, Plain d p) (hmute : Mute p)
    (hf : ∀ a u, Still s u → Ends (f a) u post fun _ v => Lapsed o s v) :
    Ends (p >>= f) t post fun _ v => Lapsed o s v := by
  refine Stylesheet.ends_bind.mpr
    ((ends_still hp hmute (h.options.trans ho)).mono (fun a u hu => hf a u (h.trans hu)) ?_)
  exact fun _ u hu => ⟨hu.options, fun hquiet => (hu.quiet hquiet).trans h.warnings⟩

/-- What follows a production that may decline.  Where it does, it has passed nothing and warned of
nothing. -/
theorem Still.ends_declined (h : Still s t) (hs : c.Before s.cursor) (ho : s.options = o)
    {p : Production Bool} {f : Bool → Production β} (hp : Covers c o p)
    (hdeclines : Selector.Declines p)
    (htrue : ∀ u, Covered c o s u → Ends (f true) u post fun _ v => Lapsed o s v)
    (hfalse : ∀ u, Still s u → Ends (f false) u post fun _ v => Lapsed o s v) :
    Ends (p >>= f) t post fun _ v => Lapsed o s v := by
  have hst := h.covered hs ho
  have hcovers := hp t hst.gains.ahead hst.gains.options
  unfold Ends at hcovers ⊢
  rw [bind_apply]
  cases hrun : p t with
  | error e u =>
    rw [hrun] at hcovers
    exact hst.gains.lapse hcovers
  | ok found u =>
    rw [hrun] at hcovers
    cases found with
    | true => exact htrue u (hst.trans hcovers)
    | false =>
      have hsame := hcovers.warnings_eq (hdeclines t u hrun)
      exact hfalse u
        (h.trans ⟨hcovers.forward, hcovers.gains.options.trans hst.gains.options.symm, hsame⟩)

/-- What follows a production that covers what it passes. -/
theorem Covered.ends (h : Covered c o s t) {p : EStateM ε State α} (hp : Covers c o p) :
    Ends p t (fun _ u => Covered c o s u) fun _ u => Lapsed o s u :=
  (hp t h.gains.ahead h.gains.options).mono (fun _ _ hu => h.trans hu) fun _ _ hu =>
    h.gains.lapse hu

end

/-! ### Selectors -/

namespace Selector

theorem covers_classPiece : Covers c o classPiece := by
  refine covers_bind (covers_passes _) fun _ => covers_ite (covers_pure _) ?_
  refine covers_bind (covers_of_mute (fun _ => plain_sees _) (mute_sees _)) fun _ =>
    covers_ite ?_ (covers_pure _)
  exact covers_bind (covers_passes _) fun _ => covers_interpolation

theorem covers_attributePiece : Covers c o attributePiece := by
  have hclose : Covers c o (do expect ']'; return true) :=
    covers_bind (covers_of_mute (fun _ => plain_expect _) (mute_expect _)) fun _ => covers_pure _
  refine covers_bind (covers_passes _) fun _ => covers_ite ?_ (covers_pure _)
  refine covers_bind covers_skipTrivia fun _ => ?_
  refine covers_bind (covers_orM (covers_passes _) covers_interpolation) fun _ => covers_check _ ?_
  refine covers_bind covers_skipTrivia fun _ => covers_bind (covers_passes _) fun _ => ?_
  refine covers_ite (covers_bind covers_skipTrivia fun _ => ?_) hclose
  refine covers_bind (covers_orM (covers_passes _) covers_interpolation) fun _ => covers_check _ ?_
  exact covers_bind covers_skipTrivia fun _ => hclose

theorem covers_negationPiece {sequence : Production Bool} (h : Covers c o sequence) :
    Covers c o (negationPiece sequence) := by
  refine covers_bind (covers_passes _) fun _ => covers_ite ?_ (covers_pure _)
  refine covers_bind covers_skipTrivia fun _ => covers_bind h fun _ => covers_check _ ?_
  refine covers_bind covers_skipTrivia fun _ => ?_
  exact covers_bind (covers_of_mute (fun _ => plain_expect _) (mute_expect _)) fun _ =>
    covers_pure _

theorem covers_pseudoPiece : Covers c o pseudoPiece := by
  have hrest : Covers c o (do
      if ← passes (char '(') then
        unless ← passes Text.balancedLength? do
          fail "\")\""
      return true : Production Bool) := by
    refine covers_bind (covers_passes _) fun _ => covers_ite ?_ (covers_pure _)
    exact covers_bind (covers_passes _) fun _ => covers_check _ (covers_pure _)
  intro s hs ho
  show Ends (passes pseudoMark >>= _) s _ _
  refine Still.ends_bind (.refl s) ho (fun _ => plain_passes _) (mute_passes _) fun found t ht => ?_
  cases found with
  | false => exact ht.covered hs ho
  | true =>
    refine ht.ends_declined hs ho
      (covers_orM (covers_passes Recognizer.identifier) covers_interpolation)
      (declines_orM (declines_passes _) declines_interpolation) (fun u hu => hu.ends hrest)
        fun u hu => ?_
    exact hu.back hs ho

theorem covers_piece {sequence : Production Bool} (h : Covers c o sequence) :
    Covers c o (piece sequence) :=
  covers_orM (covers_passes _) <| covers_orM covers_classPiece <|
    covers_orM covers_attributePiece <|
    covers_orM (covers_negationPiece h) <| covers_orM covers_pseudoPiece covers_interpolation

/-- Where no run of tokens comes next, the state stays as it was. -/
theorem covers_run : Covers c o run := by
  intro s hs ho
  have hrun := covers_collectUntil (c := c) (o := o)
    (fun () t => if Token.isOperator t then none else some ()) () s hs ho
  replace hrun : Ends (lexing (Lexer.takeUntil Token.isOperator)) s _ _ := hrun
  unfold Ends at hrun ⊢
  rw [run_apply]
  cases hresult : lexing (Lexer.takeUntil Token.isOperator) s with
  | error e t => exact (Still.refl s).covered hs ho
  | ok found t =>
    rw [hresult] at hrun
    simp only
    cases found.1.isEmpty with
    | true => exact (Still.refl s).covered hs ho
    | false => exact hrun

theorem covers_sequenceBy {sequence : Production Bool} (h : Covers c o sequence) :
    Covers c o (sequenceBy sequence) :=
  covers_here_bind fun _ => covers_bind (covers_repeatWhile (covers_piece h)) fun _ =>
    covers_here_bind fun _ => covers_ite (covers_pure _) covers_run

theorem covers_sequence : Covers c o sequence :=
  covers_recurse (covers_fail _) fun _ => covers_sequenceBy

/-- A run that is given up goes on from the state before it. -/
theorem declines_run : Declines run := by
  intro s t h
  rw [run_apply] at h
  split at h
  · split at h
    · cases h
      rfl
    · cases h
  · cases h
    rfl

/-- A sequence is declined where it would be empty. -/
theorem declines_sequence : Declines sequence := by
  intro s t h
  rw [sequence_eq] at h
  obtain ⟨_, u, hpieces, h⟩ := exists_of_bind (p := repeatWhile State.size (piece sequence)) h
  have hforward : s.cursor.Before u.cursor :=
    (kept_of_ok (plain_repeatWhile (plain_piece plain_sequence)) hpieces
      (⟨.refl _, rfl⟩ : Kept s.cursor s s)).ahead
  replace h : (if s.cursor.offset < u.cursor.offset then pure true else run) u = .ok false t := h
  split at h
  · cases h
  · next hle =>
    have hplace : u.cursor = s.cursor := (hforward.eq_of_offset_le (Nat.not_lt.mp hle)).symm
    exact (declines_run u t h).trans hplace

theorem covers_continuation : Covers c o continuation := by
  intro s hs ho
  show Ends (skipTrivia >>= _) s _ _
  refine Still.ends_bind (.refl s) ho (fun _ => plain_skipTrivia) mute_skipTrivia fun _ t ht => ?_
  refine ht.ends_bind ho (fun _ => plain_passes _) (mute_passes _) fun combined u hu => ?_
  refine hu.ends_bind ho (fun _ => plain_skipTrivia) mute_skipTrivia fun _ v hv => ?_
  refine hv.ends_declined hs ho covers_sequence declines_sequence (fun w hw => hw) fun w hw => ?_
  cases combined with
  | true => exact ⟨hw.options.trans ho, fun _ => hw.warnings⟩
  | false => exact hw.back hs ho

theorem covers_selector : Covers c o selector := by
  have hrest : Covers c o (do
      unless ← sequence do
        fail "selector"
      repeatWhile State.size continuation) :=
    covers_bind covers_sequence fun _ => covers_check _ (covers_repeatWhile covers_continuation)
  refine covers_bind (covers_passes _) fun _ => covers_ite ?_ hrest
  exact covers_bind covers_skipTrivia fun _ => hrest

theorem covers_alternative : Covers c o alternative := by
  intro s hs ho
  show Ends (skipTrivia >>= _) s _ _
  refine Still.ends_bind (.refl s) ho (fun _ => plain_skipTrivia) mute_skipTrivia fun _ t ht => ?_
  refine ht.ends_bind ho (fun _ => plain_passes _) (mute_passes _) fun found u hu => ?_
  cases found with
  | true =>
    refine (hu.covered hs ho).ends (p := skipTrivia >>= fun _ => selector >>= fun _ => pure true) ?_
    exact covers_bind covers_skipTrivia fun _ => covers_bind covers_selector fun _ => covers_pure _
  | false => exact hu.back hs ho

theorem covers_group : Covers c o group :=
  covers_bind covers_selector fun _ => covers_repeatWhile covers_alternative

end Selector
end Grammar
end Stylesheet
