import Mathlib.Data.List.DropRight
import Stylesheet.Proofs.Excerpt
import Stylesheet.Proofs.SpacedColon

/-!
# The span of selectors

Selectors are kept as the text from where a group of them starts to where reading it stops, without
the white space at its ends.  The last thing that was read may end earlier: a run of tokens stops
before the next token, so behind white space and comments.  And the last thing that was read may
itself end in white space, as an escaped space does.  So the text reaches exactly to the end of what
was read if and only if that does not end in white space and only white space follows it
(`selector_spans`).

Which piece or token is the last is answered by productions that run as those of selectors do
(`Selector.groupEnd` and `Selector.map_groupEnd`), and what they answer is the end of a piece or
token (`Selector.lastEnd_of_groupEnd`).
-/
namespace Stylesheet

/-! ### Trimming -/

namespace Text

/-- What is dropped from the right is all that was put there if it can all be dropped, and nothing
more if what was there before cannot. -/
theorem rdropWhile_append_eq_iff {p : Char → Bool} (a g : Text) :
    (a ++ g).rdropWhile p = a ↔ (∀ x ∈ a.getLast?, p x = false) ∧ ∀ x ∈ g, p x = true := by
  induction g using List.reverseRecOn with
  | nil =>
    rw [List.append_nil, List.rdropWhile_eq_self_iff]
    constructor
    · intro h
      refine ⟨fun x hx => ?_, nofun⟩
      obtain ⟨hne, hlast⟩ := List.mem_getLast?_eq_getLast hx
      rw [hlast]
      exact Bool.eq_false_iff.mpr (h hne)
    · rintro ⟨hlast, -⟩ hne
      rw [hlast _ (List.getLast?_eq_getLast_of_ne_nil hne)]
      exact Bool.false_ne_true
  | append_singleton g x ih =>
    rw [← List.append_assoc]
    by_cases hx : p x = true
    · rw [List.rdropWhile_concat_pos p _ x hx, ih]
      simp only [List.mem_append, List.mem_singleton, or_imp, forall_and, forall_eq, hx, and_true]
    · rw [List.rdropWhile_concat_neg p _ x hx]
      constructor
      · intro h
        have hlength := congrArg List.length h
        simp only [List.length_append, List.length_singleton] at hlength
        omega
      · rintro ⟨-, hall⟩
        exact absurd (hall x (by simp)) hx

/-- A text that does not begin with white space is trimmed at its end only. -/
theorem trim_of_head {t : Text} (h : ∀ x ∈ t.head?, isBlank x = false) :
    t.trim = t.rdropWhile isBlank := by
  have hfront : t.dropWhile isBlank = t := by
    cases t with
    | nil => rfl
    | cons x t => exact List.dropWhile_cons_of_neg (by rw [h x rfl]; exact Bool.false_ne_true)
  show (t.dropWhile isBlank).rdropWhile isBlank = _
  rw [hfront]

end Text

namespace Grammar
namespace Selector

/-! ### Sequences inside negations -/

section
variable {p q : Production Bool} {n : Nat} {s : State}

theorem repeatWhile_congr (h : ∀ t : State, t.size ≤ n → p t = q t) (hs : s.size ≤ n) :
    repeatWhile State.size p s = repeatWhile State.size q s := by
  induction hk : s.size using Nat.strongRecOn generalizing s with
  | ind k ih =>
    rw [repeatWhile_apply, repeatWhile_apply, h s hs]
    cases q s with
    | error e t => rfl
    | ok again t =>
      cases again with
      | false => rfl
      | true =>
        simp only
        by_cases hlt : t.size < s.size
        · rw [if_pos hlt, if_pos hlt, ih t.size (hk ▸ hlt) (by omega) rfl]
        · rw [if_neg hlt, if_neg hlt]

/-- Alternatives behind a production that reads no blocks. -/
theorem orM_congr {r : Production Bool} (hr : Plain s.cursor r)
    (h : ∀ t : State, t.size ≤ s.size → p t = q t) : (r <||> p) s = (r <||> q) s := by
  have hkept := hr s (.refl _)
  unfold orM
  rw [bind_apply, bind_apply]
  cases hrun : r s with
  | error e t => rfl
  | ok found t =>
    cases found with
    | true => rfl
    | false => exact h t (hkept.of_ok hrun).1.ahead.left_le

theorem negationPiece_congr (h : ∀ t : State, t.size < n → p t = q t) (hs : s.size ≤ n) :
    negationPiece p s = negationPiece q s := by
  unfold negationPiece
  rw [bind_apply, bind_apply, passes_apply]
  cases hhead : notHead s.cursor.rest with
  | none => rfl
  | some k =>
    obtain ⟨b, hskip⟩ := passes_skip Recognizer.trivia { s with cursor := s.cursor.advance k }
    simp only [if_true, bind_apply, skipTrivia, hskip]
    have hadvanced : s.cursor.left - k < s.cursor.left := by
      have hlength := Recognizer.le_of_caseless hhead
      have hleft := s.cursor.left_eq
      have hpos : 5 = k := (Recognizer.caseless_eq_some.mp hhead).2
      omega
    have hsmaller := (Cursor.Before.refl (s.cursor.advance k)).skip Recognizer.trivia |>.left_le
    rw [h _ (Nat.lt_of_le_of_lt hsmaller (Nat.lt_of_lt_of_le hadvanced hs))]

theorem piece_congr (h : ∀ t : State, t.size < n → p t = q t) (hs : s.size ≤ n) :
    piece p s = piece q s := by
  unfold piece
  refine orM_congr (plain_passes _) fun t ht => ?_
  refine orM_congr plain_classPiece fun u hu => ?_
  refine orM_congr plain_attributePiece fun v hv => ?_
  unfold orM
  rw [bind_apply, bind_apply, negationPiece_congr h (by omega)]

end

/-- **The rule for sequences is its own unfolding.**  It meets itself only inside a negation, where
less is left to read. -/
theorem sequence_eq : sequence = sequenceBy sequence := by
  funext s
  rw [sequence, recurse_apply, ← sequence]
  -- The comparison holds wherever a negation uses the rule.
  have hagree : ∀ t : State, t.size < s.size →
      (if t.size < s.size then sequence t else fail "selector" t) = sequence t :=
    fun t ht => if_pos ht
  unfold sequenceBy
  simp only [here, bind_apply, get_apply, pure_apply]
  rw [repeatWhile_congr (fun t ht => piece_congr hagree ht) (Nat.le_refl _)]

/-! ### Productions that decline -/

/-- A production declines by going to a certain place. -/
def DeclinesAt (place : Cursor) (p : Production Bool) : Prop :=
  ∀ s t, p s = .ok false t → t.cursor = place

/-- A production declines without passing anything. -/
def Declines (p : Production Bool) : Prop :=
  ∀ s t, p s = .ok false t → t.cursor = s.cursor

section
variable {α : Type} {place : Cursor} {p q : Production Bool}

theorem declinesAt_true : DeclinesAt place (pure true) := by
  intro s t h
  cases h

theorem declinesAt_fail (expected : String) : DeclinesAt place (fail expected) := by
  intro s t h
  cases h

theorem declinesAt_moveTo : DeclinesAt place (do moveTo place; return false) := by
  intro s t h
  cases h
  rfl

theorem declinesAt_after {p : Production α} {f : α → Production Bool}
    (h : ∀ a, DeclinesAt place (f a)) : DeclinesAt place (p >>= f) := by
  intro s t hrun
  obtain ⟨a, u, -, hrun⟩ := exists_of_bind hrun
  exact h a u t hrun

theorem declinesAt_ite {P : Prop} [Decidable P] (hp : DeclinesAt place p)
    (hq : DeclinesAt place q) : DeclinesAt place (if P then p else q) := by
  split
  · exact hp
  · exact hq

theorem declinesAt_check {P : Prop} [Decidable P] {f : Unit → Production Bool} (expected : String)
    (h : DeclinesAt place (f ())) : DeclinesAt place (if P then f () else fail expected >>= f) := by
  refine declinesAt_ite h fun s t hrun => ?_
  obtain ⟨_, _, hfail, -⟩ := exists_of_bind hrun
  cases hfail

theorem declines_here {f : Cursor → Production Bool} (h : ∀ place, DeclinesAt place (f place)) :
    Declines (here >>= f) :=
  fun s t hrun => h s.cursor s t hrun

theorem declines_passes (form : Recognizer) : Declines (passes form) := by
  intro s t h
  rw [passes_apply] at h
  cases hform : form s.cursor.rest with
  | none =>
    rw [hform] at h
    cases h
    rfl
  | some n =>
    rw [hform] at h
    cases h

theorem declines_orM (hp : Declines p) (hq : Declines q) : Declines (p <||> q) := by
  intro s t h
  obtain ⟨found, u, hfirst, h⟩ := exists_of_bind h
  cases found with
  | true => cases h
  | false => exact (hq u t h).trans (hp s u hfirst)

/-- A production that goes on only behind a form of text. -/
theorem cursor_of_unless {form : Recognizer} {s t : State} (h : DeclinesAt s.cursor p)
    (hrun : (passes form >>= fun found => if found then p else pure false) s = .ok false t) :
    t.cursor = s.cursor := by
  obtain ⟨found, u, hpass, hrun⟩ := exists_of_bind hrun
  cases found with
  | true => exact h u t hrun
  | false =>
    cases hrun
    exact declines_passes form s t hpass

end

theorem declines_interpolation : Declines interpolation :=
  fun _ _ => cursor_of_unless (declinesAt_after fun _ => declinesAt_true)

theorem declines_classPiece : Declines classPiece := by
  intro s t h
  obtain ⟨found, u, hpass, h⟩ := exists_of_bind h
  cases found with
  | true => cases h
  | false =>
    have hplace := declines_passes className s u hpass
    rw [← hplace]
    replace h : (sees (Recognizer.literal ['.', '#', '{']) >>= fun found =>
      if found = true then passes (char '.') >>= fun _ => interpolation else pure false) u =
        .ok false t := h
    rw [bind_apply, sees_apply] at h
    cases hform : Recognizer.literal ['.', '#', '{'] u.cursor.rest with
    | none =>
      rw [hform] at h
      cases h
      rfl
    | some n =>
      rw [hform] at h
      -- An interpolation comes behind the dot, so it is not declined.
      obtain ⟨⟨v, hv⟩, -⟩ := Recognizer.literal_eq_some.mp hform
      have hdot : char '.' u.cursor.rest = some 1 := by rw [← hv]; rfl
      have hopen : Recognizer.literal ['#', '{'] (u.cursor.advance 1).rest = some 2 := by
        rw [Cursor.rest_advance, ← hv]
        rfl
      obtain ⟨_, w, hpass, h⟩ := exists_of_bind h
      rw [passes_of_some hdot] at hpass
      cases hpass
      unfold interpolation at h
      rw [bind_apply, passes_of_some hopen] at h
      exact declinesAt_after (fun _ => declinesAt_true) _ _ h

theorem declines_attributePiece : Declines attributePiece := by
  intro s t
  have hclose : DeclinesAt s.cursor (do expect ']'; return true) :=
    declinesAt_after fun _ => declinesAt_true
  refine cursor_of_unless (declinesAt_after fun _ => declinesAt_after fun _ => ?_)
  refine declinesAt_check _ (declinesAt_after fun _ => declinesAt_after fun _ => ?_)
  refine declinesAt_ite (declinesAt_after fun _ => declinesAt_after fun _ => ?_) hclose
  exact declinesAt_check _ (declinesAt_after fun _ => hclose)

theorem declines_negationPiece (sequence : Production Bool) :
    Declines (negationPiece sequence) := by
  intro s t
  refine cursor_of_unless (declinesAt_after fun _ => declinesAt_after fun _ => ?_)
  refine declinesAt_check _ (declinesAt_after fun _ => declinesAt_after fun _ => ?_)
  exact declinesAt_true

/-- A colon that no name follows is given back. -/
theorem declines_pseudoPiece : Declines pseudoPiece := by
  intro s t h
  replace h : (passes pseudoMark >>= fun found => if found then _ else pure false) s =
      .ok false t := h
  refine cursor_of_unless (declinesAt_after fun _ => ?_) h
  refine declinesAt_ite (declinesAt_after fun _ => ?_) declinesAt_moveTo
  refine declinesAt_ite (declinesAt_after fun _ => ?_) declinesAt_true
  exact declinesAt_check _ declinesAt_true

theorem declines_piece (sequence : Production Bool) : Declines (piece sequence) :=
  declines_orM (declines_passes _) <| declines_orM declines_classPiece <|
    declines_orM declines_attributePiece <| declines_orM (declines_negationPiece _) <|
      declines_orM declines_pseudoPiece declines_interpolation

/-! ### Where the last thing ends

The productions below run as those of a group of selectors do, and answer where the last piece or
token ends that was taken. -/

/-- A run of tokens, by where the last of them ends. -/
def runEnd : Production (Option Cursor) := fun s =>
  match lexing (Lexer.takeUntil Token.isOperator) s with
  | .ok (tokens, l) t => if tokens.isEmpty then .ok none s else .ok (some l.previousEnd) t
  | .error _ _ => .ok none s

/-- A sequence, by where its last piece or token ends. -/
def sequenceEnd : Production (Option Cursor) := do
  let start ← here
  repeatWhile State.size (piece sequence)
  let stop ← here
  if start.offset < stop.offset then
    return some stop
  else
    runEnd

/-- Repeats a step, by the end that it found last. -/
def latest (step : Production (Option Cursor)) (first : Cursor) : Production Cursor := do
  let ends ← unfold State.size (fun _ => do
    let found ← step
    return (found.toList, if found.isSome then some () else none)) ()
  return ends.getLastD first

/-- A sequence behind a combinator or white space, by where it ends. -/
def continuationEnd : Production (Option Cursor) := do
  let start ← here
  let _ ← skipTrivia
  let combined ← passes combinator
  let _ ← skipTrivia
  let found ← sequenceEnd
  if found.isSome then
    return found
  else if combined then
    fail "selector"
  else
    moveTo start
    return none

/-- A selector, by where its last piece or token ends. -/
def selectorEnd : Production Cursor := do
  if ← passes combinator then
    let _ ← skipTrivia
  match ← sequenceEnd with
  | some first => latest continuationEnd first
  | none => fail "selector"

/-- A selector behind a comma, by where it ends. -/
def alternativeEnd : Production (Option Cursor) := do
  let start ← here
  let _ ← skipTrivia
  if ← passes (char ',') then
    let _ ← skipTrivia
    let found ← selectorEnd
    return some found
  else
    moveTo start
    return none

/-- A group of selectors, by where its last piece or token ends. -/
def groupEnd : Production Cursor := do
  let first ← selectorEnd
  latest alternativeEnd first

section
variable {α β : Type} {f : α → β} {p : Production β} {q : Production α} {s t : State}

theorem ok_of_map (h : f <$> q = p) {a : α} (hrun : q s = .ok a t) : p s = .ok (f a) t := by
  rw [← h, map_apply, hrun]

theorem exists_of_map (h : f <$> q = p) {b : β} (hrun : p s = .ok b t) :
    ∃ a, q s = .ok a t ∧ f a = b := by
  rw [← h, map_apply] at hrun
  cases hq : q s with
  | error e u =>
    rw [hq] at hrun
    cases hrun
  | ok a u =>
    rw [hq] at hrun
    cases hrun
    exact ⟨a, rfl, rfl⟩

theorem map_runEnd : Option.isSome <$> runEnd = run := by
  funext s
  rw [map_apply, run_apply]
  unfold runEnd
  cases lexing (Lexer.takeUntil Token.isOperator) s with
  | error e t => rfl
  | ok found t =>
    simp only
    by_cases hempty : found.1.isEmpty = true
    · rw [if_pos hempty, if_pos hempty]
      rfl
    · rw [if_neg hempty, if_neg hempty]
      rfl

theorem tokens_of_runEnd {e : Cursor} (h : runEnd s = .ok (some e) t) :
    ∃ tokens l, Lexer.takeUntil Token.isOperator (.ofCursor s.cursor s.options) = .ok tokens l ∧
      tokens ≠ [] ∧ e = l.previousEnd ∧ l.front = t.cursor := by
  unfold runEnd lexing at h
  cases hlexer : Lexer.takeUntil Token.isOperator (.ofCursor s.cursor s.options) with
  | error e l =>
    rw [hlexer] at h
    cases h
  | ok tokens l =>
    simp only [hlexer] at h
    split at h
    · cases h
    · next hne =>
      cases h
      exact ⟨tokens, l, rfl, fun hnil => hne (List.isEmpty_iff.mpr hnil), rfl, rfl⟩

theorem map_sequenceEnd : Option.isSome <$> sequenceEnd = sequence := by
  rw [sequence_eq]
  unfold sequenceEnd sequenceBy
  simp only [map_bind]
  refine bind_congr fun start => bind_congr fun _ => bind_congr fun stop => ?_
  split
  · rfl
  · exact map_runEnd

theorem map_latest {step : Production (Option Cursor)} {p : Production Bool}
    (h : Option.isSome <$> step = p) (first : Cursor) :
    (fun _ => ()) <$> latest step first = repeatWhile State.size p := by
  have hloop : ∀ s, repeatWhile State.size p s =
      match unfold State.size (fun _ => step >>= fun found =>
        pure (found.toList, if found.isSome then some () else none)) () s with
      | .ok _ t => .ok () t
      | .error e t => .error e t := by
    intro s
    induction hk : s.size using Nat.strongRecOn generalizing s with
    | ind k ih =>
      rw [repeatWhile_apply, unfold_apply, bind_apply, ← h, map_apply]
      cases step s with
      | error e t => rfl
      | ok found t =>
        cases found with
        | none => rfl
        | some e =>
          simp only [pure_apply, Option.isSome_some, if_true]
          by_cases hlt : t.size < s.size
          · rw [if_pos hlt, if_pos hlt, h, ih t.size (hk ▸ hlt) t rfl]
            cases unfold State.size (fun _ => step >>= fun found =>
              pure (found.toList, if found.isSome then some () else none)) () t <;> rfl
          · rw [if_neg hlt, if_neg hlt]
  funext s
  rw [map_apply, hloop]
  unfold latest
  rw [bind_apply]
  cases unfold State.size (fun _ => step >>= fun found =>
    pure (found.toList, if found.isSome then some () else none)) () s <;> rfl

theorem map_continuationEnd : Option.isSome <$> continuationEnd = continuation := by
  unfold continuationEnd continuation
  simp only [← map_sequenceEnd, map_bind, bind_map_left]
  refine bind_congr fun start => bind_congr fun _ => bind_congr fun combined => ?_
  refine bind_congr fun _ => bind_congr fun found => ?_
  cases found with
  | some e => rfl
  | none => cases combined <;> rfl

theorem map_selectorEnd : (fun _ => ()) <$> selectorEnd = selector := by
  have hrest : (fun _ => ()) <$> (sequenceEnd >>= fun found => match found with
      | some first => latest continuationEnd first
      | none => fail "selector") = (do
        unless ← sequence do
          fail "selector"
        repeatWhile State.size continuation : Production Unit) := by
    simp only [← map_sequenceEnd, map_bind, bind_map_left]
    refine bind_congr fun found => ?_
    cases found with
    | some first => exact map_latest map_continuationEnd first
    | none => rfl
  unfold selectorEnd selector
  simp only [map_bind]
  refine bind_congr fun combined => ?_
  cases combined with
  | true =>
    show _ <$> (skipTrivia >>= fun _ => _) = skipTrivia >>= fun _ => _
    rw [map_bind]
    exact bind_congr fun _ => hrest
  | false => exact hrest

theorem map_alternativeEnd : Option.isSome <$> alternativeEnd = alternative := by
  unfold alternativeEnd alternative
  simp only [← map_selectorEnd, map_bind, bind_map_left]
  refine bind_congr fun start => bind_congr fun _ => bind_congr fun found => ?_
  cases found with
  | true =>
    simp only [if_true, map_bind]
    exact bind_congr fun _ => bind_congr fun _ => rfl
  | false => rfl

/-- A group of selectors is read as one whose end is not asked for. -/
theorem map_groupEnd : (fun _ => ()) <$> groupEnd = group := by
  unfold groupEnd group
  simp only [← map_selectorEnd, map_bind, bind_map_left]
  exact bind_congr fun first => map_latest map_alternativeEnd first

end

/-! ### The last thing that was taken -/

/-- Where the last piece or token ends of the selectors that were read from a state up to a
place. -/
inductive LastEnd (s : State) (stop : Cursor) : Cursor → Prop
  /-- Reading stops right behind a piece. -/
  | behindPiece (t u : State) (ahead : s.cursor.Before t.cursor) (options : t.options = s.options)
      (taken : piece sequence t = .ok true u) (nonempty : t.cursor ≠ u.cursor)
      (stops : u.cursor = stop) : LastEnd s stop stop
  /-- Behind a run of tokens, reading stops where the next token would start. -/
  | behindToken (t : State) (tokens : List Token) (l : Lexer) (ahead : s.cursor.Before t.cursor)
      (options : t.options = s.options)
      (taken : Lexer.takeUntil Token.isOperator (.ofCursor t.cursor t.options) = .ok tokens l)
      (nonempty : tokens ≠ []) (stops : l.front = stop) : LastEnd s stop l.previousEnd

section
variable {s t u : State} {stop e : Cursor}

/-- What was read from a later state was read from an earlier one. -/
theorem LastEnd.earlier (h : LastEnd t stop e) (hkept : Kept s.cursor s t) : LastEnd s stop e := by
  cases h with
  | behindPiece v w ahead options taken nonempty stops =>
    exact .behindPiece v w (hkept.ahead.trans ahead) (options.trans hkept.options) taken
      nonempty stops
  | behindToken v tokens l ahead options taken nonempty stops =>
    exact .behindToken v tokens l (hkept.ahead.trans ahead) (options.trans hkept.options) taken
      nonempty stops

theorem kept_of_ok {α : Type} {c : Cursor} {p : Production α} (hp : Plain c p) {a : α}
    (h : p t = .ok a u) (hkept : Kept c s t) : Kept c s u :=
  hkept.trans ((hp t hkept.ahead).of_ok h).1

/-- Between the end of a run of tokens and the place where reading stops there is nothing but white
space and comments. -/
theorem gap_of_takeUntil {d : Cursor} {options : Options} {tokens : List Token} {l : Lexer}
    (h : Lexer.takeUntil Token.isOperator (.ofCursor d options) = .ok tokens l)
    (hne : tokens ≠ []) :
    d.Before l.previousEnd ∧ l.previousEnd.Before l.front ∧
      Skipped (l.front.textSince l.previousEnd) := by
  unfold Lexer.takeUntil at h
  obtain ⟨k, _, hconsumes, -, -, hl⟩ := (Lexer.ends_collectUntil_consumes rfl _ ()).of_ok h
  have hend : l.previousEnd = k.cursor := by
    rw [hl]
    exact hconsumes.previousEnd hne
  have hfront : l.front = k.tokenStart := by
    have hfresh : l.lookahead = none := by
      rw [hl]
      exact hconsumes.fresh rfl
    rw [Lexer.front_of_lookahead hfresh, hl]
    rfl
  rw [hend, hfront]
  exact ⟨hconsumes.before rfl, k.before_tokenStart, k.skipped_tokenStart⟩

theorem LastEnd.gap (h : LastEnd s stop e) :
    s.cursor.Before e ∧ e.Before stop ∧ Skipped (stop.textSince e) := by
  cases h with
  | behindPiece t u ahead options taken nonempty stops =>
    have hbefore := ((plain_piece plain_sequence t (.refl _)).of_ok taken).1.ahead
    rw [stops] at hbefore
    rw [Cursor.textSince_self]
    exact ⟨ahead.trans hbefore, .refl _, .inl rfl⟩
  | behindToken t tokens l ahead options taken nonempty stops =>
    obtain ⟨hend, hfront, hskipped⟩ := gap_of_takeUntil taken nonempty
    rw [← stops]
    exact ⟨ahead.trans hend, hfront, hskipped⟩

/-- What every round of a loop keeps. -/
theorem repeatWhile_keeps (inv : State → Prop) {step : Production Bool}
    (round : ∀ t found u, inv t → step t = .ok found u → inv u) (start : inv s)
    (h : repeatWhile State.size step s = .ok () u) : inv u := by
  induction hk : s.size using Nat.strongRecOn generalizing s with
  | ind k ih =>
    rw [repeatWhile_apply] at h
    split at h
    · cases h
    · next t hstep =>
      cases h
      exact round s false u start hstep
    · next t hstep =>
      have ht := round s true t start hstep
      by_cases hlt : t.size < s.size
      · rw [if_pos hlt] at h
        exact ih t.size (hk ▸ hlt) ht h rfl
      · rw [if_neg hlt] at h
        cases h
        exact ht

/-- Pieces one after the other, perhaps none. -/
theorem lastEnd_of_pieces (h : repeatWhile State.size (piece sequence) s = .ok () u) :
    u.cursor = s.cursor ∨ LastEnd s u.cursor u.cursor := by
  have hkeeps : Kept s.cursor s u ∧ (u.cursor = s.cursor ∨ LastEnd s u.cursor u.cursor) := by
    refine repeatWhile_keeps
      (fun t => Kept s.cursor s t ∧ (t.cursor = s.cursor ∨ LastEnd s t.cursor t.cursor))
      ?_ ⟨⟨.refl _, rfl⟩, .inl rfl⟩ h
    rintro t found v ⟨hkept, hlast⟩ hpiece
    refine ⟨kept_of_ok (plain_piece plain_sequence) hpiece hkept, ?_⟩
    by_cases hsame : t.cursor = v.cursor
    · rwa [← hsame]
    · cases found with
      | false => exact absurd (declines_piece sequence t v hpiece).symm hsame
      | true => exact .inr (.behindPiece t v hkept.ahead hkept.options hpiece hsame rfl)
  exact hkeeps.2

theorem lastEnd_of_sequenceEnd (h : sequenceEnd s = .ok (some e) u) : LastEnd s u.cursor e := by
  replace h : (repeatWhile State.size (piece sequence) >>= fun _ => here >>= fun stop =>
    if s.cursor.offset < stop.offset then pure (some stop) else runEnd) s = .ok (some e) u := h
  obtain ⟨_, t, hpieces, h⟩ := exists_of_bind h
  replace h : (if s.cursor.offset < t.cursor.offset then pure (some t.cursor) else runEnd) t =
    .ok (some e) u := h
  have hkept : Kept s.cursor s t :=
    kept_of_ok (plain_repeatWhile (plain_piece plain_sequence)) hpieces ⟨.refl _, rfl⟩
  by_cases hoffset : s.cursor.offset < t.cursor.offset
  · rw [if_pos hoffset] at h
    cases h
    rcases lastEnd_of_pieces hpieces with hsame | hlast
    · rw [hsame] at hoffset
      omega
    · exact hlast
  · rw [if_neg hoffset] at h
    obtain ⟨tokens, l, hlexer, hne, rfl, hfront⟩ := tokens_of_runEnd h
    exact .behindToken t tokens l hkept.ahead hkept.options hlexer hne hfront

/-- Behind something that was taken, rounds that take something or decline. -/
theorem lastEnd_of_latest {step : Production (Option Cursor)} {p : Production Bool}
    (herased : Option.isSome <$> step = p) (hplain : ∀ c, Plain c p) (hdeclines : Declines p)
    (htakes : ∀ t e u, step t = .ok (some e) u → LastEnd t u.cursor e) {first : Cursor}
    (hkept : Kept s.cursor s t) (hfirst : LastEnd s t.cursor first)
    (h : latest step first t = .ok e u) : LastEnd s u.cursor e := by
  have hrounds : Ends (latest step first) t (fun e u => LastEnd s u.cursor e) fun _ _ => True := by
    refine ends_bind.mpr (Ends.unfold
      (fun found _ v => Kept s.cursor s v ∧ LastEnd s v.cursor (found.getLastD first)) ?_
      ⟨hkept, hfirst⟩)
    rintro found _ v ⟨hv, hlast⟩
    refine ends_bind.mpr ?_
    unfold Ends
    cases hround : step v with
    | error => trivial
    | ok now w =>
      have herasedRound := ok_of_map herased hround
      have hw : Kept s.cursor s w := kept_of_ok (hplain _) herasedRound hv
      cases now with
      | none =>
        have hplace : w.cursor = v.cursor := hdeclines v w herasedRound
        show LastEnd s w.cursor ((found ++ []).getLastD first)
        rwa [List.append_nil, hplace]
      | some e =>
        have htaken : LastEnd s w.cursor ((found ++ [e]).getLastD first) := by
          rw [List.getLastD_concat]
          exact (htakes v e w hround).earlier hv
        show if w.size < v.size then _ else LastEnd s w.cursor ((found ++ [e]).getLastD first)
        split
        · exact ⟨hw, htaken⟩
        · exact htaken
  exact hrounds.of_ok h

theorem declines_continuation : Declines continuation := by
  refine declines_here fun place => declinesAt_after fun _ => declinesAt_after fun _ => ?_
  refine declinesAt_after fun _ => declinesAt_after fun _ => declinesAt_ite declinesAt_true ?_
  exact declinesAt_ite (declinesAt_fail _) declinesAt_moveTo

theorem declines_alternative : Declines alternative := by
  refine declines_here fun place => declinesAt_after fun _ => declinesAt_after fun _ => ?_
  refine declinesAt_ite (declinesAt_after fun _ => declinesAt_after fun _ => ?_) declinesAt_moveTo
  exact declinesAt_true

theorem lastEnd_of_continuationEnd (h : continuationEnd s = .ok (some e) u) :
    LastEnd s u.cursor e := by
  obtain ⟨_, t, hhere, h⟩ := exists_of_bind h
  cases hhere
  obtain ⟨_, t, hskip, h⟩ := exists_of_bind h
  obtain ⟨combined, v, hcombinator, h⟩ := exists_of_bind h
  obtain ⟨_, w, hskip', h⟩ := exists_of_bind h
  obtain ⟨found, x, hsequence, h⟩ := exists_of_bind h
  have hkept : Kept s.cursor s w :=
    kept_of_ok plain_skipTrivia hskip' <| kept_of_ok (plain_passes _) hcombinator <|
      kept_of_ok plain_skipTrivia hskip ⟨.refl _, rfl⟩
  cases found with
  | some e' =>
    cases h
    exact (lastEnd_of_sequenceEnd hsequence).earlier hkept
  | none =>
    cases combined <;> cases h

/-- Sequences, at least one, up to where the last of them ends. -/
theorem lastEnd_of_selectorEnd (h : selectorEnd s = .ok e u) : LastEnd s u.cursor e := by
  -- What follows the combinator that may come first.
  have hrest : ∀ t, Kept s.cursor s t → (sequenceEnd >>= fun found => match found with
      | some first => latest continuationEnd first
      | none => fail "selector") t = .ok e u → LastEnd s u.cursor e := by
    intro t hkept h
    obtain ⟨found, v, hsequence, h⟩ := exists_of_bind h
    cases found with
    | none => cases h
    | some first =>
      have hv : Kept s.cursor s v :=
        kept_of_ok plain_sequence (ok_of_map map_sequenceEnd hsequence) hkept
      exact lastEnd_of_latest map_continuationEnd (fun _ => plain_continuation)
        declines_continuation (fun _ _ _ => lastEnd_of_continuationEnd) hv
        ((lastEnd_of_sequenceEnd hsequence).earlier hkept) h
  obtain ⟨found, t, hpass, h⟩ := exists_of_bind h
  have hkept : Kept s.cursor s t := kept_of_ok (plain_passes _) hpass ⟨.refl _, rfl⟩
  cases found with
  | false => exact hrest t hkept h
  | true =>
    obtain ⟨_, v, hskip, h⟩ := exists_of_bind h
    exact hrest v (kept_of_ok plain_skipTrivia hskip hkept) h

theorem lastEnd_of_alternativeEnd (h : alternativeEnd s = .ok (some e) u) :
    LastEnd s u.cursor e := by
  obtain ⟨_, t, hhere, h⟩ := exists_of_bind h
  cases hhere
  obtain ⟨_, t, hskip, h⟩ := exists_of_bind h
  obtain ⟨found, v, hcomma, h⟩ := exists_of_bind h
  have hkept : Kept s.cursor s v :=
    kept_of_ok (plain_passes _) hcomma <| kept_of_ok plain_skipTrivia hskip ⟨.refl _, rfl⟩
  cases found with
  | false => cases h
  | true =>
    obtain ⟨_, w, hskip', h⟩ := exists_of_bind h
    obtain ⟨e', x, hselector, h⟩ := exists_of_bind h
    cases h
    exact (lastEnd_of_selectorEnd hselector).earlier (kept_of_ok plain_skipTrivia hskip' hkept)

/-- **A group of selectors ends behind its last piece or token**, but for white space and
comments. -/
theorem lastEnd_of_groupEnd (h : groupEnd s = .ok e u) : LastEnd s u.cursor e := by
  obtain ⟨first, t, hselector, h⟩ := exists_of_bind h
  have hkept : Kept s.cursor s t :=
    kept_of_ok plain_selector (ok_of_map map_selectorEnd hselector) ⟨.refl _, rfl⟩
  exact lastEnd_of_latest map_alternativeEnd (fun _ => plain_alternative) declines_alternative
    (fun _ _ _ => lastEnd_of_alternativeEnd) hkept (lastEnd_of_selectorEnd hselector) h

end

/-! ### The text that is kept -/

section
variable {s t : State} {stop e : Cursor} {text : Text}

theorem not_blank_of_trivia {t : Text} (h : Recognizer.trivia t = none) :
    ∀ x ∈ t.head?, isBlank x = false := by
  intro x hx
  obtain ⟨u, rfl⟩ := List.head?_eq_some_iff.mp hx
  refine Bool.eq_false_iff.mpr fun hblank => ?_
  have htrivium : Recognizer.trivium (x :: u) = some ((u.takeWhile isBlank).length + 1) := by
    simp only [Recognizer.trivium, Recognizer.orElse, Recognizer.blanks, Recognizer.run₁, hblank]
    rfl
  have hlength := Text.triviaLength_of_some htrivium
  rw [Recognizer.trivia_eq_none_iff.mp h] at hlength
  omega

/-- How the text that is kept of selectors compares with the text up to where the last piece or
token ends that was taken. -/
structure Spans (s : State) (stop e : Cursor) (text : Text) : Prop where
  last : LastEnd s stop e
  ahead : s.cursor.Before e
  stops : e.Before stop
  /-- Nothing is read between the end and the place where reading stops. -/
  gap : Skipped (stop.textSince e)
  /-- The text begins where the selectors do. -/
  front : text <+: s.cursor.rest
  trimmed : text = (stop.textSince s.cursor).trim
  /-- When the text is that of the selectors, no more and no less. -/
  whole : text = e.textSince s.cursor ↔
    (∀ x ∈ (e.textSince s.cursor).getLast?, isBlank x = false) ∧
      ∀ x ∈ stop.textSince e, isBlank x = true

theorem spans_of_lastEnd (htrivia : Recognizer.trivia s.cursor.rest = none) (h : LastEnd s stop e) :
    Spans s stop e (stop.textSince s.cursor).trim := by
  obtain ⟨hahead, hstops, hgap⟩ := h.gap
  have hrest : s.cursor.rest = stop.textSince s.cursor ++ stop.rest := (hahead.trans hstops).rest_eq
  have hsplit : stop.textSince s.cursor = e.textSince s.cursor ++ stop.textSince e :=
    hahead.textSince_append hstops
  have hhead : ∀ x ∈ (stop.textSince s.cursor).head?, isBlank x = false := by
    intro x hx
    refine not_blank_of_trivia htrivia x ?_
    rw [hrest]
    exact List.mem_head?_append_of_mem_head? hx
  refine ⟨h, hahead, hstops, hgap, ?_, rfl, ?_⟩
  · rw [Text.trim_of_head hhead, hrest]
    exact (List.rdropWhile_prefix _ _).trans (List.prefix_append _ _)
  · rw [Text.trim_of_head hhead, hsplit]
    exact Text.rdropWhile_append_eq_iff _ _

theorem spans_of_groupText (htrivia : Recognizer.trivia s.cursor.rest = none)
    (h : groupText s = .ok text t) : ∃ e, groupEnd s = .ok e t ∧ Spans s t.cursor e text := by
  obtain ⟨_, u, hhere, h⟩ := exists_of_bind h
  cases hhere
  obtain ⟨_, u, hgroup, h⟩ := exists_of_bind h
  cases h
  obtain ⟨e, he, -⟩ := exists_of_map map_groupEnd hgroup
  exact ⟨e, he, spans_of_lastEnd htrivia (lastEnd_of_groupEnd he)⟩

/-- A text is that of selectors read from a state ahead of a place, and how far it reaches is
known. -/
structure Spanned (c : Cursor) (o : Options) (s : State) (text : Text) : Prop where
  selected : Selected c o s text
  spans : ∃ e t, groupEnd s = .ok e t ∧ Spans s t.cursor e text

end

end Selector
end Grammar

open Grammar

/-- Whether a kind of node is a ruleset with a certain text. -/
def NodeKind.isRuleset (text : Text) : NodeKind → Bool
  | .ruleset selector => selector = text
  | _ => false

theorem NodeKind.isRuleset_iff {text : Text} {k : NodeKind} :
    k.isRuleset text = true ↔ k = .ruleset text := by
  cases k <;> simp [NodeKind.isRuleset]

/-- **How far the text of selectors reaches.**  The text kept of a group of selectors begins with
the first of them.  It ends where the last piece or token that was taken ends if and only if that
one does not end in white space and no comment comes before the place where reading stopped.  The
text of every ruleset of a document is such a text, and so is the argument of every at-rule, unless
it is that of an expression. -/
theorem selector_spans (source : Text) (options : Options) :
    (∀ (s t : State) (text : Text), Recognizer.trivia s.cursor.rest = none →
      Selector.groupText s = .ok text t →
      ∃ e, Selector.groupEnd s = .ok e t ∧ Selector.Spans s t.cursor e text) ∧
    ∀ tree, (parse source options).result = .ok tree → ∀ k ∈ tree.kinds,
      (∀ text, k = .ruleset text →
        ∃ s, Selector.Spanned (.start source options.line 0) options s text) ∧
      (∀ name text, k = .atRule name (some text) →
        (∃ e, Written (.start source options.line 0) options e ∧ text = e.text) ∨
          ∃ s, Selector.Spanned (.start source options.line 0) options s text ∧
            ∀ e t, expression .statement s ≠ .ok e t) := by
  have hspanned : ∀ {s : State} {text : Text},
      Selected (.start source options.line 0) options s text →
      Selector.Spanned (.start source options.line 0) options s text := by
    intro s text h
    obtain ⟨t, hgroup⟩ := h.group
    obtain ⟨e, hend, hspans⟩ := Selector.spans_of_groupText h.place hgroup
    exact ⟨h, e, t, hend, hspans⟩
  refine ⟨fun s t text htrivia h => Selector.spans_of_groupText htrivia h, ?_⟩
  intro tree h k hk
  have hread := nodeRead_of_parse h k hk
  constructor
  · intro text hkind
    obtain ⟨s, hselected⟩ := hread.selector text hkind
    exact ⟨s, hspanned hselected⟩
  · intro name text hkind
    rcases hread.argument name text hkind with hwritten | ⟨s, hselected, hnone⟩
    · exact .inl hwritten
    · exact .inr ⟨s, hspanned hselected, hnone⟩

/-- A ruleset whose text is kept, at the start of a document. -/
theorem exists_ruleset {source text : Text}
    (h : (match (parse source).result with
      | .ok tree => tree.kinds.any (·.isRuleset text)
      | .error _ => false) = true) :
    ∃ tree, (parse source).result = .ok tree ∧ .ruleset text ∈ tree.kinds := by
  obtain ⟨tree, htree, hsome⟩ := exists_of_parse h
  obtain ⟨k, hk, hkind⟩ := List.any_eq_true.mp hsome
  exact ⟨tree, htree, NodeKind.isRuleset_iff.mp hkind ▸ hk⟩

/-- Two sequences with a combinator between them. -/
theorem selector_spans_combined :
    (∃ t e, Selector.groupText (.start "a > b \x7b\x7d".toList {}) = .ok "a > b".toList t ∧
      Selector.Spans (.start "a > b \x7b\x7d".toList {}) t.cursor e "a > b".toList) ∧
    ∃ tree, (parse "a > b \x7b\x7d".toList).result = .ok tree ∧
    .ruleset "a > b".toList ∈ tree.kinds ∧
      ∃ s, Selector.Spanned (.start "a > b \x7b\x7d".toList 1 0) {} s "a > b".toList := by
  obtain ⟨hgroups, hdocuments⟩ := selector_spans "a > b \x7b\x7d".toList {}
  constructor
  · obtain ⟨text, t, hgroup, htext⟩ := exists_of_answers
      (r := Selector.groupText (.start "a > b \x7b\x7d".toList {}))
      (p := fun text _ => text = "a > b".toList) (by decide +kernel)
    rw [of_decide_eq_true htext] at hgroup
    have htrivia : Recognizer.trivia "a > b \x7b\x7d".toList = none :=
      Recognizer.trivia_eq_none (by decide) (by decide)
    obtain ⟨e, -, hspans⟩ := hgroups _ t _ htrivia hgroup
    exact ⟨t, e, hgroup, hspans⟩
  · obtain ⟨tree, htree, hkind⟩ : ∃ tree, (parse "a > b \x7b\x7d".toList).result = .ok tree ∧
        .ruleset "a > b".toList ∈ tree.kinds := exists_ruleset (by decide +kernel)
    exact ⟨tree, htree, hkind, (hdocuments tree htree _ hkind).1 _ rfl⟩

/-- An escaped space is cut off from the selector that it belongs to, and a comment behind a
percentage is kept. -/
theorem selector_text_differs :
    (∃ tree, (parse "a\\ \x7b\x7d".toList).result = .ok tree ∧ .ruleset "a\\".toList ∈ tree.kinds ∧
      ∃ e t, Selector.groupEnd (.start "a\\ \x7b\x7d".toList {}) = .ok e t ∧
        e.textSince (.start "a\\ \x7b\x7d".toList 1 0) = "a\\ ".toList) ∧
    ∃ tree, (parse "50% /* c */ \x7b\x7d".toList).result = .ok tree ∧
      .ruleset "50% /* c */".toList ∈ tree.kinds ∧
      ∃ e t, Selector.groupEnd (.start "50% /* c */ \x7b\x7d".toList {}) = .ok e t ∧
        e.textSince (.start "50% /* c */ \x7b\x7d".toList 1 0) = "50%".toList := by
  constructor
  · obtain ⟨tree, htree, hkind⟩ : ∃ tree, (parse "a\\ \x7b\x7d".toList).result = .ok tree ∧
        .ruleset "a\\".toList ∈ tree.kinds := exists_ruleset (by decide +kernel)
    obtain ⟨e, t, hend, htext⟩ := exists_of_answers
      (r := Selector.groupEnd (.start "a\\ \x7b\x7d".toList {}))
      (p := fun e _ => e.textSince (.start "a\\ \x7b\x7d".toList 1 0) = "a\\ ".toList)
      (by decide +kernel)
    exact ⟨tree, htree, hkind, e, t, hend, of_decide_eq_true htext⟩
  · obtain ⟨tree, htree, hkind⟩ : ∃ tree, (parse "50% /* c */ \x7b\x7d".toList).result = .ok tree ∧
        .ruleset "50% /* c */".toList ∈ tree.kinds := exists_ruleset (by decide +kernel)
    obtain ⟨e, t, hend, htext⟩ := exists_of_answers
      (r := Selector.groupEnd (.start "50% /* c */ \x7b\x7d".toList {}))
      (p := fun e _ => e.textSince (.start "50% /* c */ \x7b\x7d".toList 1 0) = "50%".toList)
      (by decide +kernel)
    exact ⟨tree, htree, hkind, e, t, hend, of_decide_eq_true htext⟩

end Stylesheet
