import Stylesheet.Proofs.Calls

/-!
# The rule for interpolations

The interpolations inside a special function are read by the rule for interpolations, on what is
left of the text.  That rule is given to itself only where less is left to read, and it is never
used anywhere else: `interpolation_eq` says that nothing is left of the comparison.  So all calls of
a lexer come to the same steps, with one rule for interpolations in all of them (`run_calls`).
-/
namespace Stylesheet
namespace Lexer

/-- A rule that moves a lexer forward and leaves no token in view. -/
def Forward (rule : LexM (List Token)) : Prop :=
  ∀ l, l.lookahead = none → Ends rule l
    (fun _ m => m.lookahead = none ∧ l.cursor.Before m.cursor) (fun _ _ => True)

theorem forward_interpolated (inner : LexM (List Token)) : Forward (Rules.interpolated inner) := by
  intro l hahead
  refine (ends_interpolated hahead .start).mono ?_ (fun _ _ _ => trivial)
  rintro new m ⟨_, n, rest, hn, hrun, _, rfl⟩
  have hsound := hrun.sound hahead
  exact ⟨hn, (hsound.front.trans hsound.cursor).advance 1⟩

/-- A rule for interpolations runs as one that is given another rule for those inside it. -/
theorem interpolation_apply (l : Lexer) :
    ∃ inner, interpolation l = Rules.interpolated inner l :=
  ⟨_, recurse_apply _ _ _ l⟩

theorem forward_interpolation : Forward interpolation := by
  intro l hahead
  obtain ⟨inner, hinner⟩ := interpolation_apply l
  have h := forward_interpolated inner l hahead
  unfold Ends at h ⊢
  rwa [hinner]

/-! ### Rules that agree where less is left to read -/

section
variable {p q : LexM (List Token)} {n : Nat}

theorem pieces_congr (hq : Forward q) (h : ∀ l, l.cursor.left < n → p l = q l) (stop : Cursor)
    {l : Lexer} (hahead : l.lookahead = none) (hleft : l.cursor.left ≤ n) :
    Rules.pieces p stop l = Rules.pieces q stop l := by
  rw [Rules.pieces_eq, Rules.pieces_eq]
  refine unfold_congr (fun l => l.lookahead = none ∧ l.cursor.left ≤ n) ?_ () ⟨hahead, hleft⟩
  rintro _ l ⟨hahead, hleft⟩
  unfold Ends Rules.piece
  by_cases hstop : stop.offset ≤ l.cursor.offset
  · simp only [if_pos hstop]
    exact ⟨trivial, hahead, hleft⟩
  · simp only [if_neg hstop]
    cases hraw : Rules.rawLength? l.cursor.rest with
    | some k => exact ⟨rfl, hahead, Nat.le_trans (Nat.sub_le _ _) hleft⟩
    | none =>
      simp only
      have hlt : (l.cursor.advance 2).left < l.cursor.left := by
        obtain ⟨rest, hrest⟩ := Rules.rawLength?_eq_none hraw
        show l.cursor.left - 2 < l.cursor.left
        have := l.cursor.left_eq
        rw [hrest, List.length_cons] at this
        omega
      have hinner := hq { l with cursor := l.cursor.advance 2 } hahead
      rw [h { l with cursor := l.cursor.advance 2 } (Nat.lt_of_lt_of_le hlt hleft)]
      refine ⟨rfl, ?_⟩
      cases hrun : q { l with cursor := l.cursor.advance 2 } with
      | error e m => trivial
      | ok tokens m =>
        obtain ⟨hnone, hbefore⟩ := hinner.of_ok hrun
        have hm : m.cursor.left ≤ (l.cursor.advance 2).left := hbefore.left_le
        exact ⟨hnone, by omega⟩

theorem read_congr (hq : Forward q) (h : ∀ l, l.cursor.left < n → p l = q l) {l : Lexer}
    (hleft : l.cursor.left ≤ n) : Rules.read p l = Rules.read q l := by
  have hspecial : ∀ (head : Nat) (m : Lexer), m.cursor.left ≤ n →
      Rules.special p head m = Rules.special q head m := by
    intro head m hm
    rw [Rules.special_apply, Rules.special_apply]
    cases (m.cursor.advance head).rest.balancedLength? with
    | none => rfl
    | some body =>
      simp only
      rw [pieces_congr hq h _ rfl (Nat.le_trans (Nat.sub_le _ _) hm)]
  have hskip : l.skipTrivia.cursor.left ≤ n :=
    Nat.le_trans (moved_skipTrivia l).1.left_le hleft
  have htoken : Rules.token p l.skipTrivia = Rules.token q l.skipTrivia := by
    rw [Rules.token_apply, Rules.token_apply]
    cases Recognizer.specialHead l.skipTrivia.cursor.rest with
    | none => rfl
    | some head => simp only [hspecial head l.skipTrivia hskip]
  rw [Rules.read_apply, Rules.read_apply, htoken]

theorem peek_congr (hq : Forward q) (h : ∀ l, l.cursor.left < n → p l = q l) {l : Lexer}
    (hleft : l.cursor.left ≤ n) : Rules.peek p l = Rules.peek q l := by
  rw [Rules.peek_apply, Rules.peek_apply, read_congr hq h hleft]

theorem next_congr (hq : Forward q) (h : ∀ l, l.cursor.left < n → p l = q l) {l : Lexer}
    (hleft : l.cursor.left ≤ n) : Rules.next p l = Rules.next q l := by
  rw [Rules.next_eq, Rules.next_eq, peek_congr hq h hleft]

theorem collectUntil_congr (hq : Forward q) (h : ∀ l, l.cursor.left < n → p l = q l) {β : Type}
    (go : β → Token → Option β) (b : β) {l : Lexer} (hleft : l.cursor.left ≤ n) :
    Rules.collectUntil p go b l = Rules.collectUntil q go b l := by
  unfold Rules.collectUntil
  rw [bind_apply, bind_apply, unfold_congr (fun l => l.cursor.left ≤ n) ?_ b hleft]
  intro b l hleft
  unfold Ends
  simp only [bind_apply]
  have hdone := before_isDone l
  cases hd : isDone l with
  | error e m => exact ⟨rfl, trivial⟩
  | ok done m =>
    have hm : m.cursor.left ≤ n := Nat.le_trans (hdone.of_ok hd).left_le hleft
    cases done with
    | true =>
      simp only [if_true]
      exact ⟨trivial, hm⟩
    | false =>
      simp only [Bool.false_eq_true, if_false, bind_apply, peek_congr hq h hm]
      have hpeek := before_peek q m
      cases hk : Rules.peek q m with
      | error e k => simp only; trivial
      | ok t k =>
        have hkn : k.cursor.left ≤ n := Nat.le_trans (hpeek.of_ok hk).left_le hm
        cases t with
        | none => simp only; exact ⟨trivial, hkn⟩
        | some t =>
          cases hgo : go b t with
          | none => simp only [hgo]; exact ⟨trivial, hkn⟩
          | some b' =>
            simp only [hgo, bind_apply, next_congr hq h hkn]
            have hnext := before_next q k
            cases hr : Rules.next q k with
            | error e r => exact ⟨trivial, trivial⟩
            | ok u r => exact ⟨trivial, Nat.le_trans (hnext.of_ok hr).left_le hkn⟩

end

/-- **The rule for interpolations is its own unfolding.**  It meets itself only where less is left
to read. -/
theorem interpolation_eq : interpolation = Rules.interpolated interpolation := by
  funext l
  rw [interpolation, recurse_apply, ← interpolation]
  unfold Rules.interpolated
  have hagree : ∀ m : Lexer, m.cursor.left < l.cursor.left →
      (if m.cursor.left < l.cursor.left then interpolation m
        else (get >>= fun k => throw k.failure : LexM (List Token)) m) = interpolation m := by
    intro m hm
    exact if_pos hm
  rw [bind_apply, bind_apply, collectUntil_congr forward_interpolation hagree _ _ (Nat.le_refl _)]

/-! ### Everything a lexer can be asked -/

/-- A call of a lexer. -/
inductive Call
  | next
  | peek
  | isDone
  | unconsume
  | all
  | interpolation
  | takeWarnings
  | expect (description : String)
  | collectUntil (β : Type) (go : β → Token → Option β) (b : β)

/-- The lexer behind a call, whether the call fails or not. -/
def Call.run : Call → Lexer → Lexer
  | .next, l => stateOf (Lexer.next l)
  | .peek, l => stateOf (Lexer.peek l)
  | .isDone, l => stateOf (Lexer.isDone l)
  | .unconsume, l => l.unconsume
  | .all, l => stateOf (Lexer.all l)
  | .interpolation, l => stateOf (Lexer.interpolation l)
  | .takeWarnings, l => l.takeWarnings.2
  | .expect description, l => l.expect description
  | .collectUntil _ go b, l => stateOf (Lexer.collectUntil go b l)

/-- The lexer behind one call after another. -/
def after (calls : List Call) (l : Lexer) : Lexer :=
  calls.foldl (fun l call => call.run l) l

variable {start l : Lexer} {ts : List Token}

/-- What a call comes to, from a lexer that calls led to. -/
theorem Run.call (hstart : start.lookahead = none) (h : Run interpolation start ts l)
    (call : Call) : ∃ new, Run interpolation start (ts ++ new) (call.run l) := by
  have hsame : ∀ {m}, Run interpolation start ts m → ∃ new, Run interpolation start (ts ++ new) m :=
    fun hm => ⟨[], by rwa [List.append_nil]⟩
  have hled : ∀ {α} (p : LexM α), Ends p l (fun _ m => ∃ new, Run interpolation start (ts ++ new) m)
      (fun _ m => ∃ new, Run interpolation start (ts ++ new) m) →
      ∃ new, Run interpolation start (ts ++ new) (stateOf (p l)) := by
    intro α p hp
    exact ends_stateOf.mp hp
  cases call with
  | next =>
    refine hled _ ((ends_next h).mono ?_ fun _ _ hm => hsame hm)
    intro t m hm
    cases t with
    | none => exact hsame hm.1
    | some t =>
      obtain ⟨n, ahead, hn, _, hview, _, rfl⟩ := hm
      exact ⟨[ahead.token], hn.consume hview⟩
  | peek => exact hled _ ((ends_peek h).mono (fun _ _ hm => hsame hm.1) fun _ _ hm => hsame hm)
  | isDone =>
    exact hled _ ((ends_isDone h).mono (fun _ _ hm => hsame hm.1) fun _ _ hfalse => hfalse.elim)
  | unconsume => exact hsame h.putBack
  | all => exact hled _ ((ends_all h).mono (fun new _ hm => ⟨new, hm⟩) fun _ _ hm => hm)
  | interpolation =>
    have hends := ends_interpolated hstart h
    rw [← interpolation_eq] at hends
    exact hled _ (hends.mono (fun new _ hm => ⟨new, hm.1⟩) fun _ _ hm => hm)
  | takeWarnings => exact hsame (h.rewarn [])
  | expect description => exact hsame (h.reword (some description))
  | collectUntil _ go b =>
    refine hled _ ((ends_collectUntil hstart h go b).mono ?_ fun _ _ hm => hm)
    rintro new m ⟨n, _, hn, _, _, _, rfl⟩
    exact ⟨new, hn.putBack⟩

/-- **Whatever is asked of a lexer comes down to the steps of a run.** -/
theorem run_after (hstart : start.lookahead = none) (calls : List Call) :
    ∃ ts, Run interpolation start ts (start.after calls) := by
  suffices run : ∀ (calls : List Call) (ts : List Token) (l : Lexer),
      Run interpolation start ts l → ∃ ts', Run interpolation start ts' (l.after calls) from
    run calls [] start .start
  intro calls
  induction calls with
  | nil =>
    intro ts l h
    exact ⟨ts, h⟩
  | cons call calls ih =>
    intro ts l h
    obtain ⟨new, hcall⟩ := h.call hstart call
    exact ih _ _ hcall

end Lexer
end Stylesheet
