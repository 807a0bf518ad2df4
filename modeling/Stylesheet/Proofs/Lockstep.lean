import Stylesheet.Proofs.SpacedColon

/-!
# Two ways to give an attempt up

When an attempt to read a declaration is given up, the end of the last block may be given back or
not.  Run side by side, the two ways keep in step (`Lockstep`) as long as no attempt that is given
up has read a block.  An attempt that reads one and fails has passed a colon with space behind it;
where that space is of ASCII or a comment, there is no ruleset either, and both ways fail
(`lockstep_declarationOrRuleset`).
-/
namespace Stylesheet
namespace Grammar

variable {ε α β : Type} {c : Cursor} {o : Options}

/-! ### Runs side by side -/

/-- Two states that agree on all that counts.  The first gives back the place and the warnings of an
attempt, the second everything. -/
structure Alike (c : Cursor) (o : Options) (s s' : State) : Prop where
  ahead : c.Before s.cursor
  options : s.options = o
  rollback : s.rollback = .position
  same : ∃ k, s' = s.reframe s.blockEnd k .everything

theorem Alike.size {s s' : State} (h : Alike c o s s') : s'.size = s.size := by
  obtain ⟨_, _, _, k, rfl⟩ := h
  rfl

/-- Two runs that end in the same answer and in states that agree, or both in an error. -/
inductive Together (c : Cursor) (o : Options) :
    EStateM.Result ε State α → EStateM.Result ε State α → Prop
  | ok (a : α) {t t' : State} (alike : Alike c o t t') : Together c o (.ok a t) (.ok a t')
  | error (e e' : ε) {t t' : State} (options : t.options = o ∧ t'.options = o)
      (rollback : t.rollback = .position ∧ t'.rollback = .everything) :
      Together c o (.error e t) (.error e' t')

/-- From states that agree a production runs to the same end. -/
def Lockstep (c : Cursor) (o : Options) (p : EStateM ε State α) : Prop :=
  ∀ s s', Alike c o s s' → Together c o (p s) (p s')

theorem lockstep_of_plain {p : EStateM ε State α} (h : Plain c p) : Lockstep c o p := by
  rintro s _ ⟨hahead, hoptions, hrollback, k, rfl⟩
  have hrun := h s hahead
  cases hp : p s with
  | error e t =>
    obtain ⟨hkept, hframe⟩ := hrun.of_error hp
    rw [hframe]
    have ho : t.options = o := hkept.options.trans hoptions
    exact .error e e ⟨ho, ho⟩ ⟨(hrun.same_of_error hp).2.2.trans hrollback, rfl⟩
  | ok a t =>
    obtain ⟨hkept, hframe⟩ := hrun.of_ok hp
    obtain ⟨hblockEnd, _, hsame⟩ := hrun.same_of_ok hp
    rw [hframe, ← hblockEnd]
    exact .ok a ⟨hkept.ahead, hkept.options.trans hoptions, hsame.trans hrollback, k, rfl⟩

theorem lockstep_bind {p : EStateM ε State α} {f : α → EStateM ε State β} (hp : Lockstep c o p)
    (hf : ∀ a, Lockstep c o (f a)) : Lockstep c o (p >>= f) := by
  intro s s' hs
  have hfirst := hp s s' hs
  rw [bind_apply, bind_apply]
  generalize p s = r, p s' = r' at hfirst ⊢
  cases hfirst with
  | ok a alike => exact hf a _ _ alike
  | error e e' options rollback => exact .error e e' options rollback

/-- What follows a production that reads no blocks. -/
theorem lockstep_after {p : EStateM ε State α} {f : α → EStateM ε State β} (hp : Plain c p)
    (hf : ∀ a, Lockstep c o (f a)) : Lockstep c o (p >>= f) :=
  lockstep_bind (lockstep_of_plain hp) hf

theorem lockstep_pure (a : α) : Lockstep c o (pure a : EStateM ε State α) :=
  lockstep_of_plain (plain_pure a)

theorem lockstep_here_bind {f : Cursor → Production β} (h : ∀ d, c.Before d → Lockstep c o (f d)) :
    Lockstep c o (here >>= f) := by
  rintro s _ ⟨hahead, hoptions, hrollback, k, rfl⟩
  exact h s.cursor hahead s _ ⟨hahead, hoptions, hrollback, k, rfl⟩

theorem lockstep_ite {P : Prop} [Decidable P] {p q : EStateM ε State α} (hp : Lockstep c o p)
    (hq : Lockstep c o q) : Lockstep c o (if P then p else q) := by
  split
  · exact hp
  · exact hq

theorem lockstep_check {P : Prop} [Decidable P] {f : Unit → Production α} (expected : String)
    (h : Lockstep c o (f ())) : Lockstep c o (if P then f () else fail expected >>= f) :=
  lockstep_ite h (lockstep_after (plain_fail _) fun _ => h)

theorem lockstep_during {p : Production α} (committed : Bool) (h : Lockstep c o p) :
    Lockstep c o (during committed p) := by
  intro s s' hs
  have hrun := h s s' hs
  unfold during
  generalize p s = r, p s' = r' at hrun ⊢
  cases hrun with
  | ok a alike => exact .ok a alike
  | error e e' options rollback => exact .error _ _ options rollback

/-- A loop whose rounds keep in step. -/
theorem lockstep_unfold {step : β → EStateM ε State (List α × Option β)}
    (h : ∀ b, Lockstep c o (step b)) (b : β) : Lockstep c o (unfold State.size step b) := by
  intro s s' hs
  induction hn : s.size using Nat.strongRecOn generalizing b s s' with
  | ind n ih =>
    have hsize := hs.size
    have hround := h b s s' hs
    rw [unfold_apply, unfold_apply, hsize]
    generalize step b s = r, step b s' = r' at hround ⊢
    cases hround with
    | error e e' options rollback => exact .error e e' options rollback
    | @ok found t t' alike =>
      obtain ⟨found, next⟩ := found
      have hsize' := alike.size
      cases next with
      | none => exact .ok found alike
      | some b' =>
        simp only [hsize']
        by_cases hlt : t.size < s.size
        · have hmore := ih t.size (hn ▸ hlt) b' t t' alike rfl
          simp only [if_pos hlt]
          generalize unfold State.size step b' t = r, unfold State.size step b' t' = r' at hmore ⊢
          cases hmore with
          | ok more alike => exact .ok _ alike
          | error e e' options rollback => exact .error e e' options rollback
        · simp only [if_neg hlt]
          exact .ok found alike

/-! ### What blocks do to the state -/

/-- A rule for blocks begins with a brace and ends where the last block does. -/
structure BlockRule (block : Production (List Node)) : Prop where
  opens : ∀ t : State, t.cursor.rest.head? ≠ some '{' → ∃ e, block t = .error e t
  closes : ∀ s ns t, block s = .ok ns t → t.atBlockEnd = true

theorem blockRule_fail (expected : String) : BlockRule (fail expected) :=
  ⟨fun _ _ => ⟨_, rfl⟩, nofun⟩

theorem expect_of_none {x : Char} {s : State} (h : s.cursor.rest.head? ≠ some x) :
    ∃ e, expect x s = .error e s := by
  unfold expect
  rw [bind_apply, passes_of_none (char_eq_none h)]
  exact ⟨_, rfl⟩

theorem expect_of_ok {x : Char} {s t : State} (h : expect x s = .ok () t) :
    ∃ u, s.cursor.rest = x :: u ∧ t = { s with cursor := s.cursor.advance 1 } := by
  unfold expect at h
  cases hchar : char x s.cursor.rest with
  | none =>
    rw [bind_apply, passes_of_none hchar] at h
    cases h
  | some n =>
    obtain ⟨u, hrest, rfl⟩ := char_eq_some hchar
    rw [bind_apply, passes_of_some hchar] at h
    cases h
    exact ⟨u, hrest, rfl⟩

theorem blockRule_blockBy (block : Production (List Node)) : BlockRule (blockBy block) := by
  constructor
  · intro t hrest
    obtain ⟨e, he⟩ := expect_of_none hrest
    refine ⟨e, ?_⟩
    unfold blockBy
    rw [bind_apply, he]
  · intro s ns t h
    unfold blockBy at h
    simp only [bind_apply, pure_apply, modify_apply] at h
    split at h
    · split at h
      · split at h
        · cases h
          exact decide_eq_true rfl
        · cases h
      · cases h
    · cases h

/-! ### Attempts to read a declaration -/

section
variable {s : State}

/-- A production that reads no blocks keeps the end of the last block. -/
theorem ends_of_plain {p : EStateM ε State α} (h : Plain c p) (hs : c.Before s.cursor)
    {b : Option Nat} (hb : s.blockEnd = b) :
    Ends p s (fun _ t => c.Before t.cursor ∧ t.blockEnd = b) (fun _ t => t.blockEnd = b) := by
  have hrun := h s hs
  unfold Ends
  cases hp : p s with
  | error e t => exact (hrun.same_of_error hp).1.trans hb
  | ok a t => exact ⟨(hrun.of_ok hp).1.ahead, (hrun.same_of_ok hp).1.trans hb⟩

/-- What follows a production that reads no blocks, as far as the end of the last block goes. -/
theorem ends_after {p : EStateM ε State α} {f : α → EStateM ε State β} {b : Option Nat}
    {post : β → State → Prop} {fail : ε → State → Prop} (hp : Plain c p)
    (hfail : ∀ e t, t.blockEnd = b → fail e t)
    (hf : ∀ a t, p s = .ok a t → c.Before t.cursor → t.blockEnd = b → Ends (f a) t post fail)
    (hs : c.Before s.cursor) (hb : s.blockEnd = b) : Ends (p >>= f) s post fail := by
  have hrun := (ends_of_plain hp hs hb).and_of_ok fun _ _ => id
  exact ends_bind.mpr (hrun.mono (fun a t ⟨⟨ht, hb⟩, hrun⟩ => hf a t hrun ht hb) hfail)

theorem ends_here_bind {f : Cursor → Production β} {post : β → State → Prop}
    {fail : SyntaxError → State → Prop} (h : Ends (f s.cursor) s post fail) :
    Ends (here >>= f) s post fail := h

/-- A value leaves the end of the last block alone, or it ends in a block.  It can only fail inside
a block if there is space behind the colon. -/
theorem ends_declarationValue {block : Production (List Node)} (hblock : BlockRule block)
    (name : Text) (line : Nat) (spaced : Bool) (hs : c.Before s.cursor) {b : Option Nat}
    (hb : s.blockEnd = b) :
    Ends (declarationValue block name line spaced) s
      (fun _ t => t.atBlockEnd = true ∨ t.blockEnd = b)
      (fun _ t => t.blockEnd = b ∨ spaced = true) := by
  have hkeep : ∀ (e : SyntaxError) (t : State), t.blockEnd = b → t.blockEnd = b ∨ spaced = true :=
    fun _ _ => .inl
  have hrest : ∀ (value : Option Expression) (s : State), c.Before s.cursor → s.blockEnd = b →
      Ends (do
        let important ← flag .important
        let behind ← here
        let _ ← skipTrivia
        if ← sees (char '{') then
          unless spaced do
            fail "\";\""
          return ⟨.property name value important, line, ← block⟩
        else
          moveTo behind
          return Node.leaf (.property name value important) line) s
        (fun _ t => t.atBlockEnd = true ∨ t.blockEnd = b)
        (fun _ t => t.blockEnd = b ∨ spaced = true) := by
    intro value s hs hb
    refine ends_after (plain_flag _) hkeep (fun important s _ hs hb => ?_) hs hb
    refine ends_here_bind ?_
    refine ends_after plain_skipTrivia hkeep (fun _ t _ ht hb => ?_) hs hb
    refine ends_after (plain_sees _) hkeep (fun brace t _ ht hb => ?_) ht hb
    cases brace with
    | false => exact .inr hb
    | true =>
      cases spaced with
      | false => exact .inl hb
      | true =>
        refine ends_bind.mpr ?_
        unfold Ends
        cases hrun : block t with
        | error e u => exact .inr rfl
        | ok ns u => exact .inl (hblock.closes t ns u hrun)
  refine ends_after (plain_andM (plain_pure _) (plain_sees _)) hkeep
    (fun empty s _ hs hb => ?_) hs hb
  cases empty with
  | true => exact hrest none s hs hb
  | false =>
    exact ends_after (plain_map (plain_expression _)) hkeep (fun value s _ => hrest value s) hs hb

/-- Where the text goes on behind a colon with white space or a comment, it is at a colon with space
behind it, unless the white space lies beyond ASCII. -/
theorem atColon_of_trivia {t u : Text} (ht : t = ':' :: u)
    (htrivia : (Recognizer.trivia u).isSome = true)
    (hascii : ∀ x, [':', x] <+: t → isBlank x = true → x.toNat ≤ 0x7F) : AtColon t := by
  obtain ⟨n, hn⟩ := Option.isSome_iff_exists.mp htrivia
  obtain ⟨x, w, rfl, hx⟩ := exists_of_trivia hn
  refine ⟨x, w, ht, ?_⟩
  rcases hx with hblank | hslash
  · exact .inr ⟨hblank, hascii x ⟨w, ht.symm⟩ hblank⟩
  · exact .inl hslash

theorem ends_during_here_bind {committed : Bool} {f : Cursor → Attempt β} {post : β → State → Prop}
    {fail : Rejected → State → Prop} (h : Ends (f s.cursor) s post fail) :
    Ends (during committed here >>= f) s post fail := h

theorem of_during {p : Production α} {committed : Bool} {a : α} {t : State}
    (h : during committed p s = .ok a t) : p s = .ok a t := by
  unfold during at h
  split at h
  · next hp => cases h; exact hp
  · cases h

theorem pieces_of_propertyName {t : State} (h : propertyName s = .ok () t) :
    repeatWhile State.size namePiece s = .ok () t ∧ s.cursor.offset < t.cursor.offset := by
  unfold propertyName here at h
  simp only [bind_apply, get_apply, pure_apply] at h
  split at h
  · next hpieces =>
    split at h
    · next hlt =>
      cases h
      exact ⟨hpieces, hlt⟩
    · cases h
  · cases h

/-- The name of a declaration, up to behind its colon. -/
theorem name_of_ok {start : Cursor} {name : Text} {t : State}
    (h : (do
      propertyName
      let name := (← here).textSince start
      let _ ← skipTrivia
      expect ':'
      return name) s = .ok name t) :
    ∃ v, repeatWhile State.size namePiece s = .ok () v ∧ s.cursor.offset < v.cursor.offset ∧
      ∃ u, (v.cursor.skip Recognizer.trivia).rest = ':' :: u ∧
        t = { v with cursor := (v.cursor.skip Recognizer.trivia).advance 1 } := by
  simp only [bind_apply, here, get_apply, pure_apply, skipTrivia_apply] at h
  split at h
  · next v hname =>
    obtain ⟨hpieces, hlt⟩ := pieces_of_propertyName hname
    split at h
    · next hcolon =>
      obtain ⟨u, hrest, rfl⟩ := expect_of_ok hcolon
      cases h
      exact ⟨v, hpieces, hlt, u, hrest, rfl⟩
    · cases h
  · cases h

/-- **What an attempt to read a declaration does to the end of the last block.**  If it answers, it
ends in a block or has read none.  If it fails and has read one, then a name and a colon with space
behind it were there. -/
theorem ends_declaration {block : Production (List Node)} (hblock : BlockRule block)
    (hs : c.Before s.cursor)
    (hascii : ∀ x, [':', x] <:+: c.rest → isBlank x = true → x.toNat ≤ 0x7F) :
    Ends (declaration block) s
      (fun _ t => t.atBlockEnd = true ∨ t.blockEnd = s.blockEnd)
      (fun _ t => t.blockEnd = s.blockEnd ∨ SpacedName s) := by
  have hkeep : ∀ (e : Rejected) (t : State), t.blockEnd = s.blockEnd →
      t.blockEnd = s.blockEnd ∨ SpacedName s := fun _ _ => .inl
  refine ends_during_here_bind ?_
  refine ends_after (plain_during _ (plain_passes _)) hkeep (fun marked t hmark ht hb => ?_) hs rfl
  refine ends_after (plain_during _ (plain_declarationName _)) hkeep
    (fun name u hname hu hb => ?_) ht hb
  refine ends_after (plain_during _ plain_skipTrivia) hkeep (fun spaced v hspaced hv hb => ?_) hu hb
  refine ends_after (plain_during _ (plain_sees _)) hkeep (fun named w _ hw hb => ?_) hv hb
  refine (ends_during _ (ends_declarationValue hblock name _ spaced hw hb)).mono (fun _ _ h => h) ?_
  rintro _ _ (hb | rfl)
  · exact .inl hb
  · refine .inr ?_
    obtain ⟨e, hpieces, hlt, rest, hrest, rfl⟩ := name_of_ok (of_during hname)
    have hahead : c.Before (e.cursor.skip Recognizer.trivia) :=
      ((plain_repeatWhile plain_namePiece t ht).of_ok hpieces).1.ahead.skip _
    have htrivia : (Recognizer.trivia rest).isSome = true := by
      have hrun := of_during hspaced
      rw [skipTrivia_apply] at hrun
      have hsome := (EStateM.Result.ok.inj hrun).1
      rwa [Cursor.rest_advance, hrest] at hsome
    refine ⟨marked, t, e, of_during hmark, hpieces, hlt, atColon_of_trivia hrest htrivia ?_⟩
    rintro x ⟨behind, hbehind⟩
    obtain ⟨before, hbefore, _⟩ := hahead.exists_text
    exact hascii x ⟨before, behind, by rw [List.append_assoc, hbehind, ← hbefore]⟩

end

/-! ### Statements in step -/

theorem Alike.atBlockEnd {s s' : State} (h : Alike c o s s') : s'.atBlockEnd = s.atBlockEnd := by
  obtain ⟨_, _, _, k, rfl⟩ := h
  rfl

theorem Alike.atEndOfDeclaration {s s' : State} (h : Alike c o s s') :
    s'.atEndOfDeclaration = s.atEndOfDeclaration := by
  obtain ⟨_, _, _, k, rfl⟩ := h
  rfl

theorem Alike.options_rollback {s s' : State} (h : Alike c o s s') :
    (s.options = o ∧ s'.options = o) ∧ s.rollback = .position ∧ s'.rollback = .everything := by
  obtain ⟨_, ho, hrollback, k, rfl⟩ := h
  exact ⟨⟨ho, ho⟩, hrollback, rfl⟩

theorem lockstep_atBlockEnd {p q : Production α} (hp : Lockstep c o p) (hq : Lockstep c o q) :
    Lockstep c o (get >>= fun s => if s.atBlockEnd then p else q) := by
  intro s s' hs
  show Together c o ((if s.atBlockEnd then p else q) s) ((if s'.atBlockEnd then p else q) s')
  rw [hs.atBlockEnd]
  exact lockstep_ite hp hq s s' hs

/-- Giving up an attempt that has read no block leads to states that agree. -/
theorem Alike.giveUp {s s' t t' : State} (h : Alike c o s s')
    (hoptions : t.options = o ∧ t'.options = o)
    (hrollback : t.rollback = .position ∧ t'.rollback = .everything)
    (hblockEnd : t.blockEnd = s.blockEnd) :
    Alike c o (t.giveUp s) (t'.giveUp s') := by
  obtain ⟨hahead, ho, _, k, rfl⟩ := h
  refine ⟨hahead, hoptions.1, hrollback.1, t'.backtracks ++ [s.cursor.line], ?_⟩
  unfold State.giveUp State.reframe
  simp only [hrollback.1, hrollback.2, hoptions.1, hoptions.2, hblockEnd]

/-- Giving up an attempt leads to the state before it, but for what blocks and attempts use. -/
theorem giveUp_eq {s t : State} (h : t.options = s.options) :
    ∃ b k, t.giveUp s = s.reframe b k t.rollback := by
  refine ⟨(t.giveUp s).blockEnd, (t.giveUp s).backtracks, ?_⟩
  unfold State.giveUp State.reframe
  rw [h]

section
variable {block : Production (List Node)} (hblock : Lockstep c o block)
include hblock

namespace Directive

theorem lockstep_definition (line : Nat) : Lockstep c o (definition block line) := by
  refine lockstep_after plain_skipTrivia fun _ => lockstep_after plain_identifier fun name => ?_
  refine lockstep_after plain_skipTrivia fun _ => lockstep_after (plain_sees _) fun _ => ?_
  have hrest : ∀ ps : List Parameter, Lockstep c o (do
      let _ ← skipTrivia
      return (⟨.definition ⟨name, ps⟩, line, ← block⟩ : Node)) := fun ps =>
    lockstep_after plain_skipTrivia fun _ => lockstep_bind hblock fun ns => lockstep_pure _
  exact lockstep_ite (lockstep_after (plain_list plain_parameter) hrest) (hrest [])

theorem lockstep_alternative : Lockstep c o (alternative block) := by
  refine lockstep_here_bind fun start hstart => lockstep_after plain_skipTrivia fun _ => ?_
  refine lockstep_here_bind fun _ _ => lockstep_after (plain_keyword _) fun _ => lockstep_ite ?_ ?_
  · have hrest : ∀ (condition : Option Expression) (line : Nat), Lockstep c o (do
        let _ ← skipTrivia
        let children ← block
        return ([(⟨condition, line, children⟩ : Alternative)],
          if condition.isSome then some () else none)) := fun condition line =>
      lockstep_after plain_skipTrivia fun _ => lockstep_bind hblock fun ns => lockstep_pure _
    refine lockstep_after plain_skipTrivia fun _ => lockstep_after (plain_keyword _) fun _ => ?_
    refine lockstep_ite (lockstep_after (plain_map (plain_expression _)) fun condition => ?_) ?_
    · exact hrest condition _
    · exact hrest none _
  · exact lockstep_after (plain_moveTo hstart) fun _ => lockstep_pure _

theorem lockstep_branch (line : Nat) : Lockstep c o (branch block line) := by
  refine lockstep_after (plain_expression _) fun condition => ?_
  refine lockstep_after plain_skipTrivia fun _ => lockstep_bind hblock fun ns => ?_
  refine lockstep_bind (lockstep_unfold (fun _ => lockstep_alternative hblock) ()) fun as => ?_
  exact lockstep_pure _

theorem lockstep_loop (line : Nat) : Lockstep c o (loop block line) := by
  refine lockstep_after (plain_expression _) fun condition => ?_
  exact lockstep_after plain_skipTrivia fun _ => lockstep_bind hblock fun ns => lockstep_pure _

theorem lockstep_atRule (name : Text) (line : Nat) : Lockstep c o (atRule block name line) := by
  refine lockstep_after plain_value fun value => lockstep_here_bind fun behind hbehind => ?_
  refine lockstep_after plain_skipTrivia fun _ => lockstep_after (plain_sees _) fun _ => ?_
  refine lockstep_ite (lockstep_bind hblock fun ns => lockstep_pure _) ?_
  exact lockstep_after (plain_moveTo hbehind) fun _ => lockstep_pure _

end Directive

theorem lockstep_directive : Lockstep c o (directive block) := by
  refine lockstep_here_bind fun _ _ => lockstep_after (plain_expect _) fun _ => ?_
  refine lockstep_after plain_identifier fun name => ?_
  split
  · exact Directive.lockstep_definition hblock _
  · exact lockstep_of_plain (Directive.plain_inclusion _)
  · exact Directive.lockstep_branch hblock _
  · exact lockstep_of_plain (plain_throw _)
  · exact Directive.lockstep_loop hblock _
  · exact lockstep_after (plain_expression _) fun value => lockstep_pure _
  · exact lockstep_after (plain_expression _) fun value => lockstep_pure _
  · exact Directive.lockstep_atRule hblock _ _

theorem lockstep_declarationValue (name : Text) (line : Nat) (spaced : Bool) :
    Lockstep c o (declarationValue block name line spaced) := by
  have hrest : ∀ value : Option Expression, Lockstep c o (do
      let important ← flag .important
      let behind ← here
      let _ ← skipTrivia
      if ← sees (char '{') then
        unless spaced do
          fail "\";\""
        return ⟨.property name value important, line, ← block⟩
      else
        moveTo behind
        return Node.leaf (.property name value important) line) := by
    intro value
    refine lockstep_after (plain_flag _) fun important =>
      lockstep_here_bind fun behind hbehind => ?_
    refine lockstep_after plain_skipTrivia fun _ => lockstep_after (plain_sees _) fun _ => ?_
    refine lockstep_ite (lockstep_check _ (lockstep_bind hblock fun ns => lockstep_pure _)) ?_
    exact lockstep_after (plain_moveTo hbehind) fun _ => lockstep_pure _
  refine lockstep_after (plain_andM (plain_pure _) (plain_sees _)) fun _ => lockstep_ite ?_ ?_
  · exact hrest none
  · exact lockstep_after (plain_map (plain_expression _)) hrest

theorem lockstep_declaration : Lockstep c o (declaration block) := by
  have hstart : Plain c here := plain_here_bind fun _ _ => plain_pure _
  refine lockstep_after (plain_during _ hstart) fun start => ?_
  refine lockstep_after (plain_during _ (plain_passes _)) fun marked => ?_
  refine lockstep_after (plain_during _ (plain_declarationName _)) fun name => ?_
  refine lockstep_after (plain_during _ plain_skipTrivia) fun spaced => ?_
  refine lockstep_after (plain_during _ (plain_sees _)) fun named => ?_
  exact lockstep_during _ (lockstep_declarationValue hblock _ _ _)

theorem lockstep_ruleset : Lockstep c o (ruleset block) := by
  refine lockstep_here_bind fun _ _ => lockstep_after Selector.plain_groupText fun selector => ?_
  exact lockstep_after plain_skipTrivia fun _ => lockstep_bind hblock fun ns => lockstep_pure _

/-- **An attempt that is given up keeps the two ways in step.**  Either it has read no block, or no
ruleset stands in its place. -/
theorem lockstep_declarationOrRuleset (hrule : BlockRule block)
    (hascii : ∀ x, [':', x] <:+: c.rest → isBlank x = true → x.toNat ≤ 0x7F) :
    Lockstep c o (declarationOrRuleset block) := by
  intro s s' hs
  have hattempts := lockstep_declaration hblock s s' hs
  have hends := ends_declaration hrule hs.ahead hascii
  unfold declarationOrRuleset
  cases hp : declaration block s with
  | ok n t =>
    rw [hp] at hattempts
    generalize declaration block s' = r' at hattempts ⊢
    cases hattempts with
    | @ok _ _ t' alike =>
      simp only [alike.atEndOfDeclaration]
      by_cases hend : t.atEndOfDeclaration = true
      · simp only [if_pos hend]
        exact .ok n alike
      · simp only [if_neg hend]
        have hblockEnd : t.blockEnd = s.blockEnd := by
          rcases hends.of_ok hp with hat | hsame
          · exact absurd (Bool.or_eq_true_iff.mpr (.inl hat)) hend
          · exact hsame
        obtain ⟨hoptions, hrollback⟩ := alike.options_rollback
        exact lockstep_ruleset hblock _ _ (hs.giveUp hoptions hrollback hblockEnd)
  | error e t =>
    rw [hp] at hattempts
    generalize declaration block s' = r' at hattempts ⊢
    cases hattempts with
    | @error _ e' _ t' options rollback =>
      rcases hends.of_error hp with hblockEnd | hspaced
      · have hretry := lockstep_ruleset hblock _ _ (hs.giveUp options rollback hblockEnd)
        simp only
        generalize ruleset block (t.giveUp s) = r, ruleset block (t'.giveUp s') = r' at hretry ⊢
        cases hretry with
        | ok n alike => exact .ok n alike
        | error e e' options rollback => exact .error _ _ options rollback
      · obtain ⟨_, ho, _, k, rfl⟩ := hs
        obtain ⟨b₁, k₁, hleft⟩ := giveUp_eq (options.1.trans ho.symm)
        obtain ⟨b₂, k₂, hright⟩ :=
          giveUp_eq (s := s.reframe s.blockEnd k .everything) (options.2.trans ho.symm)
        obtain ⟨e₁, u₁, herror₁, ho₁, hr₁⟩ :=
          ruleset_of_spacedName hrule.opens (hspaced.reframe b₁ k₁ t.rollback)
        obtain ⟨e₂, u₂, herror₂, ho₂, hr₂⟩ :=
          ruleset_of_spacedName hrule.opens (hspaced.reframe b₂ k₂ t'.rollback)
        rw [← hleft] at herror₁
        replace herror₂ : ruleset block (t'.giveUp (s.reframe s.blockEnd k .everything)) =
          .error e₂ u₂ := hright ▸ herror₂
        simp only [herror₁, herror₂]
        exact .error _ _ ⟨ho₁.trans ho, ho₂.trans ho⟩ ⟨hr₁.trans rollback.1, hr₂.trans rollback.2⟩

theorem lockstep_statement (hrule : BlockRule block)
    (hascii : ∀ x, [':', x] <:+: c.rest → isBlank x = true → x.toNat ≤ 0x7F) :
    Lockstep c o (statement block) := by
  refine lockstep_after (plain_sees _) fun _ => lockstep_ite (lockstep_of_plain plain_assignment) ?_
  refine lockstep_after (plain_sees _) fun _ => ?_
  exact lockstep_ite (lockstep_directive hblock) (lockstep_declarationOrRuleset hblock hrule hascii)

theorem lockstep_listStep (hrule : BlockRule block)
    (hascii : ∀ x, [':', x] <:+: c.rest → isBlank x = true → x.toNat ≤ 0x7F) (nested : Bool) :
    Lockstep c o (listStep block nested) := by
  refine lockstep_after (plain_passes _) fun _ => lockstep_after (plain_listEnds _) fun _ => ?_
  refine lockstep_ite (lockstep_pure _) (lockstep_after (plain_passes _) fun _ => ?_)
  refine lockstep_ite (lockstep_pure _) (lockstep_after plain_comment fun found => ?_)
  split
  · exact lockstep_pure _
  · refine lockstep_bind (lockstep_statement hblock hrule hascii) fun n => ?_
    refine lockstep_atBlockEnd (lockstep_pure _) (lockstep_after plain_skipTrivia fun _ => ?_)
    refine lockstep_after (plain_orM (plain_passes _) (plain_listEnds _)) fun _ => ?_
    exact lockstep_check _ (lockstep_pure _)

theorem lockstep_blockBy (hrule : BlockRule block)
    (hascii : ∀ x, [':', x] <:+: c.rest → isBlank x = true → x.toNat ≤ 0x7F) :
    Lockstep c o (blockBy block) := by
  refine lockstep_after (plain_expect _) fun _ => ?_
  refine lockstep_bind (lockstep_unfold (fun _ => lockstep_listStep hblock hrule hascii true) ()) ?_
  refine fun ns => lockstep_after (plain_expect _) fun _ => ?_
  rintro s _ ⟨hahead, hoptions, hrollback, k, rfl⟩
  exact .ok ns ⟨hahead, hoptions, hrollback, k, rfl⟩

end

/-! ### Whole texts in step -/

theorem blockRule_block : BlockRule block := by
  have hblock : ∀ s, ∃ inner, block s = blockBy inner s := fun s => ⟨_, recurse_apply _ _ _ s⟩
  constructor
  · intro t hrest
    obtain ⟨inner, hinner⟩ := hblock t
    rw [hinner]
    exact (blockRule_blockBy inner).opens t hrest
  · intro s ns t h
    obtain ⟨inner, hinner⟩ := hblock s
    rw [hinner] at h
    exact (blockRule_blockBy inner).closes s ns t h

/-- The blocks inside a block are read by the rule for blocks where less is left to read, and by no
rule elsewhere. -/
theorem blockRule_inner (n : Nat) :
    BlockRule fun s => if s.size < n then block s else fail "\"\x7b\"" s := by
  constructor
  · intro t hrest
    split
    · exact blockRule_block.opens t hrest
    · exact (blockRule_fail _).opens t hrest
  · intro s ns t h
    split at h
    · exact blockRule_block.closes s ns t h
    · exact (blockRule_fail _).closes s ns t h

section
variable (hascii : ∀ x, [':', x] <:+: c.rest → isBlank x = true → x.toNat ≤ 0x7F)
include hascii

/-- Blocks keep in step, by induction on how much is left to read. -/
theorem lockstep_block : Lockstep c o block := by
  intro s s' hs
  induction hn : s.size using Nat.strongRecOn generalizing s s' with
  | ind n ih =>
    have hinner : Lockstep c o fun t => if t.size < s.size then block t else fail "\"\x7b\"" t := by
      intro t t' ht
      have hsize := ht.size
      by_cases hlt : t.size < s.size
      · simp only [hsize, if_pos hlt]
        exact ih t.size (hn ▸ hlt) t t' ht rfl
      · simp only [hsize, if_neg hlt]
        exact lockstep_of_plain (plain_fail _) t t' ht
    have hboth := lockstep_blockBy hinner (blockRule_inner s.size) hascii s s' hs
    have hrun : ∀ t : State, block t =
        blockBy (fun u => if u.size < t.size then block u else fail "\"\x7b\"" u) t :=
      fun t => recurse_apply State.size _ blockBy t
    rw [hrun s, hrun s', hs.size]
    exact hboth

/-- **A text without white space beyond ASCII right behind a colon keeps the two ways in step.** -/
theorem lockstep_document : Lockstep c o document := by
  refine lockstep_here_bind fun _ _ => ?_
  refine lockstep_bind (lockstep_unfold (fun _ => ?_) ()) fun ns => lockstep_pure _
  exact lockstep_listStep (lockstep_block hascii) blockRule_block hascii false

end

end Grammar
end Stylesheet
