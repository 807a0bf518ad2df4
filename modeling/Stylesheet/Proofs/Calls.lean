import Stylesheet.Proofs.Reading

/-!
# Calls of a lexer

Whatever is asked of a lexer comes down to a few steps (`Run`): it goes past white space, it reads a
token and keeps it in view, it puts that token back, or it consumes it.  A call may fail, and the
lexer goes on from where it then is.  Every lexer that calls lead to has a token in view only if
that token is at its place (`Run.sound`), and each consumed token leaves less to read
(`Sound.size_consume_lt`), which is why the loops over tokens end only for their own reasons.

The rule for the interpolations of special functions is a parameter again.
-/
namespace Stylesheet

theorem Token.isOp_iff {t : Token} {o : Op} : t.isOp o = true ↔ t.kind = .op o := by
  unfold isOp
  cases t.kind <;> simp [eq_comm]

theorem Token.isOp_eq_false {t : Token} {o : Op} (h : t.kind ≠ .op o) : t.isOp o = false :=
  Bool.eq_false_iff.mpr (mt isOp_iff.mp h)

/-- Whether a token is an operator, whichever. -/
def Token.isOperator (t : Token) : Bool :=
  match t.kind with
  | .op _ => true
  | _ => false

theorem Token.isOperator_iff {t : Token} : t.isOperator = true ↔ ∃ o, t.kind = .op o := by
  unfold isOperator
  split
  · next o h => exact ⟨fun _ => ⟨o, h⟩, fun _ => rfl⟩
  · next h => exact ⟨nofun, fun ⟨o, ho⟩ => absurd ho (h o)⟩

namespace Lexer

/-! ### Consuming a token -/

section
variable (l : Lexer) (ahead : Lookahead)

/-- A token leaves everything alone but the open interpolations, the strings around them and the
warnings. -/
theorem note_frame (t : Token) : l.note t =
    { l with
      interpolations := (l.note t).interpolations
      openSegment := (l.note t).openSegment
      resume := (l.note t).resume
      pushes := (l.note t).pushes
      pops := (l.note t).pops
      warnings := (l.note t).warnings } := by
  unfold note pop warn
  dsimp only
  split
  · split <;> rfl
  · split <;> rfl
  · split <;> rfl
  · rfl

theorem cursor_note (t : Token) : (l.note t).cursor = l.cursor := by
  rw [note_frame]

theorem options_note (t : Token) : (l.note t).options = l.options := by
  rw [note_frame]

@[simp] theorem cursor_consume : (l.consume ahead).cursor = l.cursor := by
  unfold consume
  cases ahead.opens <;> exact cursor_note l ahead.token

@[simp] theorem options_consume : (l.consume ahead).options = l.options := by
  unfold consume
  cases ahead.opens <;> exact options_note l ahead.token

@[simp] theorem previousEnd_consume : (l.consume ahead).previousEnd = l.cursor := by
  unfold consume
  cases ahead.opens <;> exact cursor_note l ahead.token

@[simp] theorem previous_consume : (l.consume ahead).previous = some ahead.token := rfl

@[simp] theorem front_consume : (l.consume ahead).front = l.cursor :=
  cursor_consume l ahead

theorem note_view (view : Option Lookahead) (t : Token) :
    { l with lookahead := view }.note t = { l.note t with lookahead := view } := by
  unfold note pop warn push
  dsimp only
  split
  · split <;> rfl
  · split <;> rfl
  · split <;> rfl
  · rfl

/-- Consuming a token does not depend on whether it is in view. -/
theorem consume_view (view : Option Lookahead) :
    { l with lookahead := view }.consume ahead = l.consume ahead := by
  unfold consume
  rw [note_view]
  cases ahead.opens <;> rfl

section
variable {l} {ahead}

/-- A token that leaves no string open does nothing but what its kind does. -/
theorem consume_eq (h : ahead.opens = none) :
    l.consume ahead =
      { l.note ahead.token with
        lookahead := none
        warnings := (l.note ahead.token).warnings ++ ahead.warnings
        previous := some ahead.token
        previousEnd := (l.note ahead.token).cursor } := by
  unfold consume
  rw [h]

/-- A segment that leaves a string open opens the interpolation that cuts it short. -/
theorem consume_cut {q : Quote} (h : ahead.opens = some q) :
    l.consume ahead =
      { (l.note ahead.token).push (some q) with
        openSegment := true
        lookahead := none
        warnings := (l.note ahead.token).warnings ++ ahead.warnings
        previous := some ahead.token
        previousEnd := (l.note ahead.token).cursor } := by
  unfold consume
  rw [h]
  rfl

end

section
variable {l} {t : Token}

/-- Most tokens mean nothing to the open interpolations and to the warnings. -/
theorem note_eq (hopen : t.kind ≠ .op .openInterpolation)
    (hclose : t.kind ≠ .op .closeInterpolation) (hlegacy : ∀ name, t.kind ≠ .var name true) :
    l.note t = { l with resume := none } := by
  unfold note
  dsimp only
  split
  · next h => exact absurd h hopen
  · next h => exact absurd h hclose
  · next name h => exact absurd h (hlegacy name)
  · rfl

/-- Only the openings and closings of interpolations mean anything to the open ones. -/
theorem interpolations_note (hopen : t.kind ≠ .op .openInterpolation)
    (hclose : t.kind ≠ .op .closeInterpolation) :
    (l.note t).interpolations = l.interpolations ∧ (l.note t).openSegment = l.openSegment := by
  unfold note warn
  dsimp only
  split
  · next h => exact absurd h hopen
  · next h => exact absurd h hclose
  · split <;> exact ⟨rfl, rfl⟩
  · exact ⟨rfl, rfl⟩

theorem counts_note (hopen : t.kind ≠ .op .openInterpolation)
    (hclose : t.kind ≠ .op .closeInterpolation) :
    (l.note t).pushes = l.pushes ∧ (l.note t).pops = l.pops := by
  unfold note warn
  dsimp only
  split
  · next h => exact absurd h hopen
  · next h => exact absurd h hclose
  · split <;> exact ⟨rfl, rfl⟩
  · exact ⟨rfl, rfl⟩

theorem note_open (h : t.kind = .op .openInterpolation) :
    l.note t = if l.openSegment then { l with resume := none, openSegment := false }
      else { l with resume := none }.push none := by
  unfold note
  rw [h]

theorem note_close (h : t.kind = .op .closeInterpolation) {around : Option Quote}
    {outer : List (Option Quote)} (hopen : l.interpolations = around :: outer) :
    l.note t = { l with interpolations := outer, pops := l.pops + 1, resume := around } := by
  unfold note pop
  rw [h]
  simp only [hopen]

end

/-- Only behind the brace of an interpolation does a string go on. -/
theorem pending_consume (h : ahead.token.kind ≠ .op .closeInterpolation) :
    (l.consume ahead).pending = none := by
  rw [pending, previous_consume, Option.any_some, Token.isOp_eq_false h, if_neg Bool.false_ne_true]

end

theorem front_of_lookahead {l : Lexer} (h : l.lookahead = none) : l.front = l.cursor := by
  rw [front, h]

theorem unconsume_of_lookahead {l : Lexer} (h : l.lookahead = none) : l.unconsume = l := by
  rw [unconsume, front_of_lookahead h, ← h]

/-! ### Steps -/

variable (interpolation : LexM (List Token))

/-- **What calls come to.**  The tokens consumed since the start, and the lexer behind them. -/
inductive Run (start : Lexer) : List Token → Lexer → Prop
  | start : Run start [] start
  /-- Other words for what is expected. -/
  | reword {ts : List Token} {l : Lexer} (wording : Option String) (run : Run start ts l) :
      Run start ts { l with expected := wording }
  /-- Other warnings. -/
  | rewarn {ts : List Token} {l : Lexer} (warnings : List Deprecation) (run : Run start ts l) :
      Run start ts { l with warnings := warnings }
  /-- White space and comments are passed over. -/
  | skip {ts : List Token} {l : Lexer} (run : Run start ts l) (lookahead : l.lookahead = none)
      (pending : l.pending = none) : Run start ts l.skipTrivia
  /-- A token is read and kept in view. -/
  | look {ts : List Token} {l m : Lexer} {ahead : Lookahead} (run : Run start ts l)
      (lookahead : l.lookahead = none) (read : Rules.read interpolation l = .ok (some ahead) m) :
      Run start ts { m with lookahead := some ahead }
  /-- No token can be read. -/
  | stop {ts : List Token} {l m : Lexer} {e : SyntaxError} (run : Run start ts l)
      (lookahead : l.lookahead = none) (read : Rules.read interpolation l = .error e m) :
      Run start ts m
  /-- The token in view is put back. -/
  | putBack {ts : List Token} {l : Lexer} (run : Run start ts l) : Run start ts l.unconsume
  /-- The token in view is consumed. -/
  | consume {ts : List Token} {l : Lexer} {ahead : Lookahead} (run : Run start ts l)
      (lookahead : l.lookahead = some ahead) : Run start (ts ++ [ahead.token]) (l.consume ahead)
  /-- The brace behind an interpolation is passed. -/
  | brace {ts : List Token} {l : Lexer} {rest : Text} (run : Run start ts l)
      (lookahead : l.lookahead = none) (closes : l.cursor.rest = '}' :: rest) :
      Run start ts { l with cursor := l.cursor.advance 1, previousEnd := l.cursor.advance 1 }

/-- A lexer that calls led to from another: it stands ahead of it, and the token in view, if there
is one, is at its place. -/
structure Sound (start l : Lexer) : Prop where
  front : start.cursor.Before l.front
  cursor : l.front.Before l.cursor
  options : l.options = start.options
  view : ∀ ahead, l.lookahead = some ahead → Rules.TokenAt interpolation l ahead l.cursor

variable {interpolation} {start l m : Lexer} {ts : List Token}

/-- A lexer with no token in view moves forward. -/
theorem Sound.moved (h : Sound interpolation start l) (hahead : l.lookahead = none)
    (hm : Moved l m) : Sound interpolation start m where
  front := by
    have hfront := h.front
    rw [front_of_lookahead hahead] at hfront
    rw [front_of_lookahead (hm.lookahead.trans hahead)]
    exact hfront.trans hm.1
  cursor := by
    rw [front_of_lookahead (hm.lookahead.trans hahead)]
    exact .refl _
  options := by
    obtain ⟨_, _, hm⟩ := hm
    rw [hm]
    exact h.options
  view := by
    intro ahead hview
    rw [hm.lookahead, hahead] at hview
    cases hview

theorem Sound.look (h : Sound interpolation start l) (hahead : l.lookahead = none)
    {ahead : Lookahead} (hread : Rules.read interpolation l = .ok (some ahead) m) :
    Sound interpolation start { m with lookahead := some ahead } := by
  obtain ⟨hmoved, hstart, htoken⟩ := (Rules.ends_read interpolation l).of_ok hread
  have hplace : start.cursor.Before ahead.start := by
    have hfront := h.front
    rw [front_of_lookahead hahead] at hfront
    rw [hstart]
    exact hfront.trans (before_tokenStart l)
  refine ⟨hplace, htoken.before, (h.moved hahead hmoved).options, ?_⟩
  intro ahead' hview
  cases hview
  have hpending : { m with lookahead := some ahead }.pending = l.pending := hmoved.pending
  exact htoken.congr hpending hmoved.depth
    ((h.moved hahead hmoved).options.trans h.options.symm)

/-- **Every lexer that calls lead to is sound.** -/
theorem Run.sound (hstart : start.lookahead = none) (h : Run interpolation start ts l) :
    Sound interpolation start l := by
  have hfresh : Sound interpolation start start := by
    refine ⟨?_, ?_, rfl, fun ahead hview => ?_⟩
    · rw [front_of_lookahead hstart]; exact .refl _
    · rw [front_of_lookahead hstart]; exact .refl _
    · rw [hstart] at hview; cases hview
  induction h with
  | start => exact hfresh
  | reword _ _ ih =>
    exact ⟨ih.front, ih.cursor, ih.options, fun a ha => (ih.view a ha).congr rfl rfl rfl⟩
  | rewarn _ _ ih =>
    exact ⟨ih.front, ih.cursor, ih.options, fun a ha => (ih.view a ha).congr rfl rfl rfl⟩
  | skip _ hahead _ ih => exact ih.moved hahead (moved_skipTrivia _)
  | look _ hahead hread ih => exact ih.look hahead hread
  | stop _ hahead hread ih =>
    exact ih.moved hahead ((Rules.ends_read interpolation _).of_error hread)
  | putBack _ ih => exact ⟨ih.front, .refl _, ih.options, nofun⟩
  | @consume _ l ahead _ hahead ih =>
    refine ⟨?_, ?_, ?_, nofun⟩
    · rw [front_consume]; exact ih.front.trans ih.cursor
    · rw [front_consume, cursor_consume]; exact .refl _
    · rw [options_consume]; exact ih.options
  | @brace _ l _ _ hahead _ ih =>
    refine ⟨?_, ?_, ih.options, fun a ha => ?_⟩
    · have hfront := ih.front
      rw [front_of_lookahead hahead] at hfront
      rw [front_of_lookahead (l := { l with
        cursor := l.cursor.advance 1, previousEnd := l.cursor.advance 1 }) hahead]
      exact hfront.advance 1
    · rw [front_of_lookahead (l := { l with
        cursor := l.cursor.advance 1, previousEnd := l.cursor.advance 1 }) hahead]
      exact .refl _
    · rw [hahead] at ha
      cases ha

/-! ### How much is left to read -/

theorem pending_toNat_le (l : Lexer) : (if l.pending.isSome then 1 else 0) ≤ 1 := by
  split <;> omega

/-- A lexer with no token in view does not gain anything to read by moving forward. -/
theorem Moved.size_le (h : Moved l m) (hahead : l.lookahead = none) : m.size ≤ l.size := by
  have hleft := h.1.left_le
  rw [size, size, h.pending, front_of_lookahead hahead,
    front_of_lookahead (h.lookahead.trans hahead)]
  omega

/-- A token at its place takes something, or goes on with a string. -/
theorem Rules.TokenAt.left_lt {ahead : Lookahead} {d : Cursor}
    (h : Rules.TokenAt interpolation l ahead d) :
    l.pending.isSome = true ∧ ahead.token.kind ≠ .op .closeInterpolation ∨
    d.left < ahead.start.left := by
  have hadvance : ∀ (c : Cursor) (n : Nat), 0 < n → c.rest ≠ [] → (c.advance n).left < c.left := by
    intro c n hn hrest
    have hpos := List.length_pos_iff.mpr hrest
    rw [← c.left_eq] at hpos
    exact Nat.sub_lt hpos hn
  cases h with
  | segment c q x pending found =>
    refine .inl ⟨by rw [pending]; rfl, ?_⟩
    obtain ⟨⟨v, hkind⟩, _⟩ := Lexeme.segment?_eq_some found
    show x.kind ≠ _
    rw [hkind]
    exact nofun
  | lexeme c x pending found =>
    refine .inr (hadvance c x.length (Lexeme.found_of_at? found).pos fun hrest => ?_)
    rw [hrest] at found
    exact absurd (Lexeme.at?_nil _) (by rw [found]; exact nofun)
  | special c head body parts inner pending begins =>
    have hhead : (c.advance head).left < c.left :=
      hadvance c head (Recognizer.positive_specialHead _ _ begins) fun hrest => by
        rw [hrest] at begins
        cases begins
    exact .inr (Nat.lt_of_le_of_lt (Nat.sub_le _ _) hhead)

/-- **Each token consumed leaves less to read.** -/
theorem Sound.size_consume_lt (h : Sound interpolation start l) {ahead : Lookahead}
    (hview : l.lookahead = some ahead) : (l.consume ahead).size < l.size := by
  have htoken := h.view ahead hview
  have hfront : l.front = ahead.start := by rw [Lexer.front, hview]
  have hleft : l.cursor.left ≤ ahead.start.left := htoken.before.left_le
  have hone := pending_toNat_le (l.consume ahead)
  rw [size, size, front_consume, hfront]
  rcases htoken.left_lt with ⟨hpending, hkind⟩ | hlt
  · rw [pending_consume l ahead hkind, if_pos hpending]
    simp only [Option.isSome_none, Bool.false_eq_true, if_false]
    omega
  · omega

/-! ### The calls -/

theorem ends_isDone (h : Run interpolation start ts l) :
    Ends isDone l
      (fun done m => Run interpolation start ts m ∧ m.size ≤ l.size ∧ (m = l ∨ m = l.skipTrivia) ∧
        (done = true → m.lookahead = none ∧ m.pending = none ∧ m.cursor.atEnd = true))
      (fun _ _ => False) := by
  unfold Ends
  rw [isDone_apply]
  by_cases hbusy : (l.lookahead.isSome || l.pending.isSome) = true
  · rw [if_pos hbusy]
    exact ⟨h, Nat.le_refl _, .inl rfl, nofun⟩
  · obtain ⟨hahead, hpending⟩ : l.lookahead = none ∧ l.pending = none := by simpa using hbusy
    rw [if_neg hbusy]
    have hmoved := moved_skipTrivia l
    refine ⟨h.skip hahead hpending, hmoved.size_le hahead, .inr rfl, fun hend => ?_⟩
    exact ⟨hahead, hmoved.pending.trans hpending, hend⟩

theorem ends_peek (h : Run interpolation start ts l) :
    Ends (Rules.peek interpolation) l
      (fun t m => Run interpolation start ts m ∧ m.size ≤ l.size ∧
        t = m.lookahead.map (·.token) ∧
        (t = none → m.lookahead = none ∧ m.pending = none ∧ m.cursor.atEnd = true))
      (fun _ m => Run interpolation start ts m) := by
  have hread := Rules.ends_read interpolation l
  unfold Ends
  rw [Rules.peek_apply]
  cases hahead : l.lookahead with
  | some ahead =>
    simp only [hahead]
    exact ⟨h, Nat.le_refl _, rfl, nofun⟩
  | none =>
    cases hresult : Rules.read interpolation l with
    | error e m => exact h.stop hahead hresult
    | ok found m =>
      obtain ⟨hmoved, hfound⟩ := hread.of_ok hresult
      cases found with
      | some ahead =>
        obtain ⟨hplace, _⟩ := hfound
        have hleft := (before_tokenStart l).left_le
        refine ⟨h.look hahead hresult, ?_, rfl, nofun⟩
        have hpending : { m with lookahead := some ahead }.pending = l.pending := hmoved.pending
        rw [size, size, hpending, front_of_lookahead hahead]
        show 2 * ahead.start.left + _ ≤ _
        rw [hplace]
        omega
      | none =>
        obtain ⟨hpending, rfl, hend⟩ := hfound
        have hsame : { l.skipTrivia with lookahead := none } = l.skipTrivia := by
          rw [← hahead]
          rfl
        simp only [hsame, Option.map_none]
        refine ⟨h.skip hahead hpending, hmoved.size_le hahead, trivial, fun _ => ?_⟩
        exact ⟨trivial, hmoved.pending.trans hpending, hend⟩

/-- A token is consumed by looking at it first. -/
theorem Rules.next_eq (l : Lexer) :
    Rules.next interpolation l =
      match Rules.peek interpolation l with
      | .ok _ m =>
        match m.lookahead with
        | some ahead => .ok (some ahead.token) (m.consume ahead)
        | none => .ok none m
      | .error e m => .error e m := by
  rw [Rules.next_apply, Rules.peek_apply]
  cases hahead : l.lookahead with
  | some ahead => simp only [hahead]
  | none =>
    cases hresult : Rules.read interpolation l with
    | error e m => rfl
    | ok found m =>
      cases found with
      | some ahead => simp only [consume_view]
      | none =>
        have hnone : m.lookahead = none :=
          ((Rules.ends_read interpolation l).of_ok hresult).1.lookahead.trans hahead
        simp only
        rw [← hnone]

theorem Rules.next_of_read {ahead : Lookahead} (hview : l.lookahead = none)
    (hread : Rules.read interpolation l = .ok (some ahead) m) :
    Rules.next interpolation l = .ok (some ahead.token) (m.consume ahead) := by
  rw [Rules.next_apply, hview, hread]

theorem ends_next (h : Run interpolation start ts l) :
    Ends (Rules.next interpolation) l
      (fun t m => match t with
        | none => Run interpolation start ts m ∧ m.lookahead = none ∧ m.pending = none ∧
          m.cursor.atEnd = true
        | some t => ∃ n ahead, Run interpolation start ts n ∧ n.size ≤ l.size ∧
          n.lookahead = some ahead ∧ ahead.token = t ∧ m = n.consume ahead)
      (fun _ m => Run interpolation start ts m) := by
  have hpeek := ends_peek h
  unfold Ends
  rw [Rules.next_eq]
  cases hresult : Rules.peek interpolation l with
  | error e m => exact hpeek.of_error hresult
  | ok t m =>
    obtain ⟨hrun, hsize, ht, hend⟩ := hpeek.of_ok hresult
    cases hview : m.lookahead with
    | some ahead =>
      simp only [hview]
      exact ⟨m, ahead, hrun, hsize, hview, rfl, rfl⟩
    | none =>
      obtain ⟨_, hpending, hatEnd⟩ := hend (by rw [ht, hview, Option.map_none])
      simp only [hview]
      exact ⟨hrun, trivial, hpending, hatEnd⟩

/-! ### Calls move forward -/

theorem before_isDone (l : Lexer) :
    Ends isDone l (fun _ m => l.cursor.Before m.cursor) (fun _ _ => True) := by
  unfold Ends
  rw [isDone_apply]
  by_cases hbusy : (l.lookahead.isSome || l.pending.isSome) = true
  · rw [if_pos hbusy]
    exact .refl _
  · rw [if_neg hbusy]
    exact (moved_skipTrivia l).1

variable (interpolation) in
theorem before_peek (l : Lexer) :
    Ends (Rules.peek interpolation) l (fun _ m => l.cursor.Before m.cursor) (fun _ _ => True) := by
  unfold Ends
  rw [Rules.peek_apply]
  cases l.lookahead with
  | some ahead => exact .refl _
  | none =>
    cases hread : Rules.read interpolation l with
    | error e m => trivial
    | ok found m => exact ((Rules.ends_read interpolation l).of_ok hread).1.1

variable (interpolation) in
theorem before_next (l : Lexer) :
    Ends (Rules.next interpolation) l (fun _ m => l.cursor.Before m.cursor) (fun _ _ => True) := by
  have hpeek := before_peek interpolation l
  unfold Ends
  rw [Rules.next_eq]
  cases hresult : Rules.peek interpolation l with
  | error e m => trivial
  | ok t m =>
    have hm : l.cursor.Before m.cursor := hpeek.of_ok hresult
    cases hview : m.lookahead with
    | some ahead =>
      simp only [hview, cursor_consume]
      exact hm
    | none =>
      simp only [hview]
      exact hm

/-! ### Loops over tokens -/

/-- Why a loop over tokens ends where it does: nothing is left to read, or it does not go on behind
the token in view. -/
def Stopped {β : Type} (go : β → Token → Option β) (b : β) (l : Lexer) : Prop :=
  l.lookahead = none ∧ l.pending = none ∧ l.cursor.atEnd = true ∨
    ∃ ahead, l.lookahead = some ahead ∧ go b ahead.token = none

/-- A round of a loop over tokens: the next token is consumed where the loop goes on behind it. -/
def Rules.round (interpolation : LexM (List Token)) {β : Type} (go : β → Token → Option β) (b : β) :
    LexM (List Token × Option β) := do
  if ← isDone then
    return ([], none)
  match ← Rules.peek interpolation with
  | none => return ([], none)
  | some t =>
    match go b t with
    | none => return ([], none)
    | some b =>
      let t ← Rules.next interpolation
      return (t.toList, some b)

variable (interpolation) in
theorem Rules.collectUntil_eq {β : Type} (go : β → Token → Option β) (b : β) :
    Rules.collectUntil interpolation go b = (do
      let tokens ← unfold size (Rules.round interpolation go) b
      modify unconsume
      return tokens) := rfl

/-- **What a round comes to.**  Either it says why the loop ends, or it consumes a token and leaves
less to read. -/
theorem ends_round (hstart : start.lookahead = none) (h : Run interpolation start ts l)
    {β : Type} (go : β → Token → Option β) (b : β) :
    Ends (Rules.round interpolation go b) l
      (fun r m => Run interpolation start (ts ++ r.1) m ∧ m.size ≤ l.size ∧
        match r.2 with
        | none => r.1 = [] ∧ Stopped go b m
        | some b' => ∃ t, r.1 = [t] ∧ go b t = some b' ∧ m.size < l.size)
      (fun _ m => Run interpolation start ts m) := by
  have hends : ∀ {m : Lexer}, Run interpolation start ts m → m.size ≤ l.size → Stopped go b m →
      Run interpolation start (ts ++ []) m ∧ m.size ≤ l.size ∧ Stopped go b m :=
    fun hm hsize hstopped => ⟨by rwa [List.append_nil], hsize, hstopped⟩
  unfold Rules.round
  simp only [ends_bind]
  refine (ends_isDone h).mono ?_ (fun _ _ hfalse => hfalse.elim)
  rintro done m ⟨hm, hmsize, _, hdone⟩
  cases done with
  | true =>
    simp only [if_true, ends_pure, true_and]
    exact hends hm hmsize (.inl (hdone rfl))
  | false =>
    simp only [Bool.false_eq_true, if_false, ends_bind]
    refine (ends_peek hm).mono ?_ (fun _ _ hfail => hfail)
    rintro t k ⟨hk, hksize, ht, hend⟩
    have hksize' := Nat.le_trans hksize hmsize
    cases t with
    | none =>
      simp only [ends_pure, true_and]
      exact hends hk hksize' (.inl (hend rfl))
    | some t =>
      obtain ⟨ahead, hview, rfl⟩ := Option.map_eq_some_iff.mp ht.symm
      cases hgo : go b ahead.token with
      | none =>
        simp only [hgo, ends_pure, true_and]
        exact hends hk hksize' (.inr ⟨ahead, hview, hgo⟩)
      | some b' =>
        simp only [hgo, ends_bind, ends_pure]
        have hlt := (hk.sound hstart).size_consume_lt hview
        have hnext : Rules.next interpolation k = .ok (some ahead.token) (k.consume ahead) := by
          rw [Rules.next_apply, hview]
        unfold Ends
        simp only [hnext, Option.toList_some]
        exact ⟨hk.consume hview, by omega, ahead.token, rfl, hgo, by omega⟩

/-- **What a loop over tokens comes to.**  It consumes tokens as long as it goes on behind them, and
ends at a token or at the end of the text; the token it ends at is put back. -/
theorem ends_collectUntil (hstart : start.lookahead = none) (h : Run interpolation start ts l)
    {β : Type} (go : β → Token → Option β) (b : β) :
    Ends (Rules.collectUntil interpolation go b) l
      (fun new m => ∃ n b', Run interpolation start (ts ++ new) n ∧ n.size ≤ l.size ∧
        new.foldlM go b = some b' ∧ Stopped go b' n ∧ m = n.unconsume)
      (fun _ m => ∃ new, Run interpolation start (ts ++ new) m) := by
  rw [Rules.collectUntil_eq]
  simp only [ends_bind, ends_modify, ends_pure]
  refine Ends.unfold (fun found b' n => Run interpolation start (ts ++ found) n ∧
    n.size ≤ l.size ∧ found.foldlM go b = some b') ?_ ⟨by rwa [List.append_nil], Nat.le_refl _, rfl⟩
  rintro found b' n ⟨hrun, hsize, hfold⟩
  refine (ends_round hstart hrun go b').mono ?_ (fun _ m hfail => ⟨found, hfail⟩)
  rintro ⟨now, next⟩ m ⟨hm, hmsize, hround⟩
  cases next with
  | none =>
    obtain ⟨rfl, hstopped⟩ := hround
    simp only [List.append_nil] at hm ⊢
    exact ⟨m, b', hm, by omega, hfold, hstopped, rfl⟩
  | some b'' =>
    obtain ⟨t, rfl, hgo, hlt⟩ := hround
    simp only [if_pos hlt]
    refine ⟨by rwa [← List.append_assoc], by omega, ?_⟩
    rw [List.foldlM_append, hfold]
    simp [hgo]

/-- **What an interpolation comes to.**  It consumes the tokens before the brace of the stylesheet
that closes it, and passes that brace. -/
theorem ends_interpolated (hstart : start.lookahead = none) (h : Run interpolation start ts l) :
    Ends (Rules.interpolated interpolation) l
      (fun new m => Run interpolation start (ts ++ new) m ∧ ∃ n rest, n.lookahead = none ∧
        Run interpolation start (ts ++ new) n ∧ n.cursor.rest = '}' :: rest ∧
        m = { n with cursor := n.cursor.advance 1, previousEnd := n.cursor.advance 1 })
      (fun _ m => ∃ new, Run interpolation start (ts ++ new) m) := by
  unfold Rules.interpolated
  simp only [ends_bind]
  refine (ends_collectUntil hstart h _ ()).mono ?_ (fun _ _ hfail => hfail)
  rintro new m ⟨n, _, hrun, _, _, _, rfl⟩
  have hback := hrun.putBack
  refine ends_get.mpr ?_
  split
  · exact ⟨new, hback⟩
  · cases hpass : n.unconsume.cursor.pass? (Recognizer.literal ['}']) with
    | none => exact ⟨new, hback⟩
    | some c =>
      obtain ⟨k, hk, rfl⟩ := Option.map_eq_some_iff.mp hpass
      obtain ⟨hfront, rfl⟩ : ['}'] <+: n.unconsume.cursor.rest ∧ 1 = k := by
        simpa [Recognizer.literal, List.isPrefixOf_iff_prefix] using hk
      obtain ⟨rest, hrest⟩ := hfront
      exact ⟨hback.brace rfl hrest.symm, n.unconsume, rest, rfl, hback, hrest.symm, rfl⟩

theorem ends_all (h : Run Lexer.interpolation start ts l) :
    Ends all l (fun new m => Run Lexer.interpolation start (ts ++ new) m)
      (fun _ m => ∃ new, Run Lexer.interpolation start (ts ++ new) m) := by
  unfold all
  refine Ends.unfold (fun found _ n => Run Lexer.interpolation start (ts ++ found) n) ?_
    (by rwa [List.append_nil])
  intro found _ n hrun
  simp only [ends_bind]
  refine (ends_next hrun).mono ?_ (fun _ _ hfail => ⟨found, hfail⟩)
  intro t m hm
  cases t with
  | none =>
    simp only [ends_pure, List.append_nil]
    exact hm.1
  | some t =>
    obtain ⟨k, ahead, hk, _, hview, rfl, rfl⟩ := hm
    simp only [ends_pure, ← List.append_assoc]
    split <;> exact hk.consume hview

end Lexer
end Stylesheet
