import Stylesheet.Proofs.Coverage
import Stylesheet.Proofs.OpenInterpolation
import Stylesheet.Proofs.Termination

/-!
# How many tokens a text has

Every token takes at least one byte of the text, but for the segment of a string that goes on behind
an interpolation: that one may be empty.  It is paid for beforehand.  Behind it, or in front of it,
stands the opening of its interpolation, which takes two bytes and counts as one token; so a lexer
that has consumed some tokens has at least as many bytes behind it, and one more for each string
that will go on behind an interpolation (`Paid`).  The opening itself may still be ahead, where a
string was cut short.

With `lexing_ends` the calls of a lexer come to an end by themselves, and the tokens they gave are
no more than the bytes passed.
-/
namespace Stylesheet

theorem Cursor.Before.offset_eq {c d : Cursor} (h : c.Before d) :
    d.offset = c.offset + (d.textSince c).byteLength := by
  obtain ⟨n, rfl⟩ := h
  rw [Cursor.offset_advance, Cursor.textSince_advance]

namespace Lexer

/-- How many strings are still to go on behind an interpolation. -/
def awaited (l : Lexer) : Nat :=
  l.interpolations.countP (·.isSome) + if l.pending.isSome then 1 else 0

/-- Whether a string was cut short right before, so that the opening of its interpolation is still
to be paid. -/
def cutShort (l : Lexer) : Nat :=
  if l.openSegment then 1 else 0

/-- The tokens consumed since a place have been paid for with the bytes up to the end of the last
one. -/
structure Paid (c : Cursor) (ts : List Token) (l : Lexer) : Prop where
  ends : l.previousEnd.Before l.front
  tokens : c.offset + ts.length + l.awaited ≤ l.previousEnd.offset + l.cutShort
  /-- A string that was cut short is still to go on. -/
  cut : l.cutShort ≤ l.awaited

variable {interpolation : LexM (List Token)} {l : Lexer} {ahead : Lookahead} {d c : Cursor}
  {ts : List Token}

/-! ### One token -/

/-- A token takes a byte, or it is the segment that was awaited. -/
theorem Rules.TokenAt.offset_lt (h : Rules.TokenAt interpolation l ahead d) :
    ahead.start.offset + 1 ≤ d.offset + if l.pending.isSome then 1 else 0 := by
  have hle := h.before.offset_le
  rcases h.left_lt with ⟨hpending, -⟩ | hleft
  · rw [if_pos hpending]
    omega
  · have hlt := h.before.offset_lt hleft
    omega

/-- The byte of a token, or the string awaited right here, makes up for the token. -/
theorem Rules.TokenAt.offset_awaited (h : Rules.TokenAt interpolation l ahead d) :
    ahead.start.offset + 1 + l.interpolations.countP (·.isSome) ≤ d.offset + l.awaited := by
  have htoken := h.offset_lt
  unfold awaited
  omega

theorem Rules.TokenAt.offset_op {o : Op} (h : Rules.TokenAt interpolation l ahead d)
    (hkind : ahead.token.kind = .op o) :
    d.offset = ahead.start.offset + Text.byteLength o.text.toList := by
  have hwritten := h.writtenAs
  rw [hkind] at hwritten
  rw [h.before.offset_eq, show d.textSince ahead.start = o.text.toList from hwritten]

theorem awaited_of_pending_none (h : l.pending = none) :
    l.awaited = l.interpolations.countP (·.isSome) := by
  rw [awaited, h]
  rfl

theorem cutShort_of_whole (h : l.openSegment = false) : l.cutShort = 0 := by
  rw [cutShort, h]
  rfl

/-- What a consumed token that ends at a place takes, and what it leaves to be paid. -/
structure Charged (l : Lexer) (ahead : Lookahead) (d : Cursor) : Prop where
  bytes : ahead.start.offset + 1 + (l.consume ahead).awaited + l.cutShort ≤
    d.offset + l.awaited + (l.consume ahead).cutShort
  cut : (l.consume ahead).cutShort ≤ (l.consume ahead).awaited

/-- The opening of an interpolation has a byte to spare for the string cut short before it. -/
theorem charged_open (h : Rules.TokenAt interpolation l ahead d)
    (hkind : ahead.token.kind = .op .openInterpolation) (hwhole : ahead.opens = none) :
    Charged l ahead d := by
  have hbytes : d.offset = ahead.start.offset + 2 := h.offset_op hkind
  have hcut : l.cutShort ≤ 1 := by
    unfold cutShort
    split <;> omega
  have hle : l.interpolations.countP (·.isSome) ≤ l.awaited := Nat.le_add_right _ _
  have hsame : (l.consume ahead).awaited = l.interpolations.countP (·.isSome) ∧
      (l.consume ahead).cutShort = 0 := by
    rw [awaited_of_pending_none (pending_consume l ahead (by rw [hkind]; rintro ⟨⟩)),
      consume_eq hwhole, note_open hkind]
    by_cases hsegment : l.openSegment = true
    · rw [if_pos hsegment]
      exact ⟨rfl, rfl⟩
    · rw [if_neg hsegment]
      exact ⟨List.countP_cons_of_neg Bool.false_ne_true, if_neg hsegment⟩
  obtain ⟨hawaited, hnow⟩ := hsame
  exact ⟨by omega, by omega⟩

/-- Behind a closing brace the string around the interpolation is still awaited. -/
theorem charged_close (h : Rules.TokenAt interpolation l ahead d)
    (hkind : ahead.token.kind = .op .closeInterpolation) (hwhole : ahead.opens = none)
    (hinside : 0 < l.depth) (hsegment : l.openSegment = false) : Charged l ahead d := by
  obtain ⟨around, outer, houter⟩ := List.exists_cons_of_length_pos hinside
  have hbytes : d.offset = ahead.start.offset + 1 := h.offset_op hkind
  have hle : l.interpolations.countP (·.isSome) ≤ l.awaited := Nat.le_add_right _ _
  have hbefore := cutShort_of_whole hsegment
  have hgoesOn : (l.consume ahead).awaited = l.interpolations.countP (·.isSome) ∧
      (l.consume ahead).cutShort = 0 := by
    have hclose : ahead.token.isOp .closeInterpolation = true := Token.isOp_iff.mpr hkind
    rw [consume_eq hwhole, note_close hkind houter, houter, List.countP_cons, awaited, pending,
      Option.any_some, hclose]
    exact ⟨rfl, hbefore⟩
  obtain ⟨hawaited, hnow⟩ := hgoesOn
  exact ⟨by omega, by omega⟩

/-- A string that is cut short will go on, and the opening of its interpolation pays for that. -/
theorem charged_segment (h : Rules.TokenAt interpolation l ahead d) {v : Text} {q : Quote}
    (hkind : ahead.token.kind = .string v q) (hcut : ahead.opens = some q)
    (hsegment : l.openSegment = false) : Charged l ahead d := by
  have hopen : ahead.token.kind ≠ .op .openInterpolation := by rw [hkind]; rintro ⟨⟩
  have hclose : ahead.token.kind ≠ .op .closeInterpolation := by rw [hkind]; rintro ⟨⟩
  have hbytes := h.offset_awaited
  have hbefore := cutShort_of_whole hsegment
  have hmore : (l.consume ahead).awaited = l.interpolations.countP (·.isSome) + 1 ∧
      (l.consume ahead).cutShort = 1 := by
    rw [awaited_of_pending_none (pending_consume l ahead hclose), consume_cut hcut,
      ← (interpolations_note (l := l) hopen hclose).1]
    exact ⟨List.countP_cons_of_pos (p := (·.isSome)) (a := some q) rfl, rfl⟩
  obtain ⟨hawaited, hnow⟩ := hmore
  exact ⟨by omega, by omega⟩

theorem charged_other (h : Rules.TokenAt interpolation l ahead d)
    (hopen : ahead.token.kind ≠ .op .openInterpolation)
    (hclose : ahead.token.kind ≠ .op .closeInterpolation) (hwhole : ahead.opens = none)
    (hsegment : l.openSegment = false) : Charged l ahead d := by
  have hbytes := h.offset_awaited
  have hbefore := cutShort_of_whole hsegment
  obtain ⟨hsame, hcut⟩ := interpolations_note (l := l) hopen hclose
  have hleft : (l.consume ahead).awaited = l.interpolations.countP (·.isSome) ∧
      (l.consume ahead).cutShort = 0 := by
    rw [awaited_of_pending_none (pending_consume l ahead hclose), consume_eq hwhole, ← hsame]
    exact ⟨rfl, cutShort_of_whole (hcut.trans hsegment)⟩
  obtain ⟨hawaited, hnow⟩ := hleft
  exact ⟨by omega, by omega⟩

/-! ### A run -/

/-- **A token is paid for when it is consumed.** -/
theorem Paid.consume (h : Paid c ts l) (htracks : Tracks l ts) (hview : l.lookahead = some ahead)
    (htoken : Rules.TokenAt interpolation l ahead l.cursor) :
    Paid c (ts ++ [ahead.token]) (l.consume ahead) := by
  have hplace : ahead.start = l.front := by rw [front, hview]
  -- Where a string was cut short, only the opening of its interpolation comes next.
  have hwhole : ahead.token.kind ≠ .op .openInterpolation → l.openSegment = false := by
    intro hkind
    rw [Bool.eq_false_iff]
    exact fun hcut => hkind (htracks.token_of_cut hcut htoken hplace).1
  have hcharged : Charged l ahead l.cursor := by
    cases effect_of_tokenAt htoken with
    | opens kind whole => exact charged_open htoken kind whole
    | closes kind whole inside =>
      exact charged_close htoken kind whole inside (hwhole (by rw [kind]; rintro ⟨⟩))
    | cuts v q kind cut goesOn =>
      exact charged_segment htoken kind cut (hwhole (by rw [kind]; rintro ⟨⟩))
    | nothing open_ close whole => exact charged_other htoken open_ close whole (hwhole open_)
  have hend : l.previousEnd.offset ≤ ahead.start.offset := by
    rw [hplace]
    exact h.ends.offset_le
  have htokens := h.tokens
  have hbytes := hcharged.bytes
  refine ⟨?_, ?_, hcharged.cut⟩
  · rw [previousEnd_consume, front_consume]
    exact .refl _
  · rw [previousEnd_consume, List.length_append, List.length_singleton]
    omega

/-- A lexer that stands further on and remembers the same has paid the same. -/
theorem Paid.congr {m : Lexer} (h : Paid c ts l) (hfront : l.front.Before m.front)
    (hend : m.previousEnd = l.previousEnd) (hinterpolations : m.interpolations = l.interpolations)
    (hsegment : m.openSegment = l.openSegment) (hpending : m.pending = l.pending) :
    Paid c ts m := by
  have hawaited : m.awaited = l.awaited := by rw [awaited, awaited, hinterpolations, hpending]
  have hcut : m.cutShort = l.cutShort := by rw [cutShort, cutShort, hsegment]
  refine ⟨?_, ?_, ?_⟩
  · rw [hend]
    exact h.ends.trans hfront
  · rw [hend, hawaited, hcut]
    exact h.tokens
  · rw [hawaited, hcut]
    exact h.cut

/-- A lexer with no token in view moves forward. -/
theorem Paid.moved {m : Lexer} (h : Paid c ts l) (hview : l.lookahead = none) (hm : Moved l m) :
    Paid c ts m := by
  have hfront : l.front.Before m.front := by
    rw [front_of_lookahead hview, front_of_lookahead (hm.lookahead.trans hview)]
    exact hm.1
  obtain ⟨_, _, heq⟩ := id hm
  exact h.congr hfront (by rw [heq]) (by rw [heq]) (by rw [heq]) hm.pending

/-- **Whatever is asked of a lexer, its tokens are paid for.** -/
theorem Run.paid {options : Options} (h : Run interpolation (ofCursor c options) ts l) :
    Paid c ts l := by
  induction h with
  | start => exact ⟨.refl c, Nat.le_refl _, Nat.le_refl _⟩
  | reword _ _ ih => exact ih.congr (.refl _) rfl rfl rfl rfl
  | rewarn _ _ ih => exact ih.congr (.refl _) rfl rfl rfl rfl
  | skip _ hview _ ih => exact ih.moved hview (moved_skipTrivia _)
  | @look _ l m ahead _ hview hread ih =>
    obtain ⟨hmoved, hplace, -⟩ := (Rules.ends_read interpolation l).of_ok hread
    have hfront : l.front.Before ahead.start := by
      rw [front_of_lookahead hview, hplace]
      exact before_tokenStart l
    obtain ⟨_, _, hm⟩ := id hmoved
    exact ih.congr (m := { m with lookahead := some ahead }) hfront (by rw [hm]) (by rw [hm])
      (by rw [hm]) hmoved.pending
  | stop _ hview hread ih => exact ih.moved hview ((Rules.ends_read interpolation _).of_error hread)
  | putBack _ ih => exact ih.congr (.refl _) rfl rfl rfl rfl
  | consume hrun hview ih => exact ih.consume hrun.tracks hview ((hrun.sound rfl).view _ hview)
  | @brace _ l _ _ hview _ ih =>
    -- The brace of a special function is passed without being a token.
    have hends := ih.ends
    rw [front_of_lookahead hview] at hends
    have hle := (hends.advance 1).offset_le
    have htokens := ih.tokens
    refine ⟨?_, ?_, ih.cut⟩
    · rw [front_of_lookahead (l := { l with
        cursor := l.cursor.advance 1, previousEnd := l.cursor.advance 1 }) hview]
      exact .refl _
    · show c.offset + _ + l.awaited ≤ (l.cursor.advance 1).offset + l.cutShort
      omega

/-! ### Calls -/

/-- The tokens of an answer.  A call that fails gives none. -/
def tokensOf {α : Type} (tokens : α → List Token) : EStateM.Result SyntaxError Lexer α → List Token
  | .ok a _ => tokens a
  | .error _ _ => []

/-- The tokens that a call gives. -/
def Call.given : Call → Lexer → List Token
  | .next, l => tokensOf Option.toList (Lexer.next l)
  | .all, l => tokensOf id (Lexer.all l)
  | .interpolation, l => tokensOf id (Lexer.interpolation l)
  | .collectUntil _ go b, l => tokensOf id (Lexer.collectUntil go b l)
  | .peek, _ | .isDone, _ | .unconsume, _ | .takeWarnings, _ | .expect _, _ => []

/-- The tokens that calls give, one call after another. -/
def given : List Call → Lexer → List Token
  | [], _ => []
  | call :: calls, l => call.given l ++ given calls (call.run l)

theorem length_tokensOf_le {start : Lexer} {α : Type} {tokens : α → List Token} {p : LexM α}
    (h : Ends p l (fun a m => ∃ new, Run Lexer.interpolation start (ts ++ new) m ∧
        (tokens a).length ≤ new.length)
      (fun _ m => ∃ new, Run Lexer.interpolation start (ts ++ new) m)) :
    ∃ new, Run Lexer.interpolation start (ts ++ new) (stateOf (p l)) ∧
      (tokensOf tokens (p l)).length ≤ new.length := by
  cases hrun : p l with
  | ok a m => exact h.of_ok hrun
  | error e m =>
    obtain ⟨new, hnew⟩ := h.of_error hrun
    exact ⟨new, hnew, Nat.zero_le _⟩

/-- A call consumes the tokens it gives. -/
theorem Run.given {start : Lexer} (hstart : start.lookahead = none)
    (h : Run Lexer.interpolation start ts l) (call : Call) :
    ∃ new, Run Lexer.interpolation start (ts ++ new) (call.run l) ∧
      (call.given l).length ≤ new.length := by
  have hnothing : call.given l = [] → ∃ new,
      Run Lexer.interpolation start (ts ++ new) (call.run l) ∧
      (call.given l).length ≤ new.length := by
    intro hnil
    obtain ⟨new, hnew⟩ := h.call hstart call
    exact ⟨new, hnew, by rw [hnil]; exact Nat.zero_le _⟩
  cases call with
  | next =>
    refine length_tokensOf_le ((ends_next h).mono ?_ fun _ m hm => ⟨[], by rwa [List.append_nil]⟩)
    intro t m hm
    cases t with
    | none => exact ⟨[], by rw [List.append_nil]; exact hm.1, Nat.le_refl _⟩
    | some t =>
      obtain ⟨n, ahead, hn, _, hview, _, rfl⟩ := hm
      exact ⟨[ahead.token], hn.consume hview, Nat.le_refl _⟩
  | all =>
    exact length_tokensOf_le ((ends_all h).mono (fun new _ hm => ⟨new, hm, Nat.le_refl _⟩)
      fun _ _ hm => hm)
  | interpolation =>
    have hends := ends_interpolated hstart h
    rw [← interpolation_eq] at hends
    exact length_tokensOf_le (hends.mono (fun new _ hm => ⟨new, hm.1, Nat.le_refl _⟩)
      fun _ _ hm => hm)
  | collectUntil _ go b =>
    refine length_tokensOf_le ((ends_collectUntil hstart h go b).mono ?_ fun _ _ hm => hm)
    rintro new m ⟨n, _, hn, _, _, _, rfl⟩
    exact ⟨new, hn.putBack, Nat.le_refl _⟩
  | peek | isDone | unconsume | takeWarnings | expect => exact hnothing rfl

theorem run_given {start : Lexer} (hstart : start.lookahead = none) (calls : List Call) {l : Lexer}
    {ts : List Token} (h : Run Lexer.interpolation start ts l) :
    ∃ new, Run Lexer.interpolation start (ts ++ new) (l.after calls) ∧
      (given calls l).length ≤ new.length := by
  induction calls generalizing ts l with
  | nil => exact ⟨[], by rwa [List.append_nil], Nat.le_refl _⟩
  | cons call calls ih =>
    obtain ⟨new, hcall, hlength⟩ := h.given hstart call
    obtain ⟨others, hothers, hlengths⟩ := ih hcall
    refine ⟨new ++ others, by rwa [← List.append_assoc], ?_⟩
    rw [Lexer.given, List.length_append, List.length_append]
    exact Nat.add_le_add hlength hlengths

/-! ### The end of a call -/

/-- A round of the loop over all tokens. -/
def nextRound : Unit → LexM (List Token × Option Unit) := fun () => do
  match ← next with
  | none => return ([], none)
  | some t => return ([t], some ())

/-- A loop over tokens ends by putting the token in view back. -/
def putBack : EStateM.Result SyntaxError Lexer (List Token) →
    EStateM.Result SyntaxError Lexer (List Token)
  | .ok ts l => .ok ts l.unconsume
  | .error e l => .error e l

/-- The calls of a lexer come to an end by themselves: their loops go on as long as their rounds
say, and the rule for interpolations may use itself as often as it likes. -/
structure Concludes (l : Lexer) : Prop where
  all : Loop nextRound () l (Lexer.all l)
  collectUntil : ∀ {β : Type} (go : β → Token → Option β) (b : β),
    ∃ r, Loop (Rules.round Lexer.interpolation go) b l r ∧ Lexer.collectUntil go b l = putBack r
  interpolation : ∀ bottom depth, l.cursor.left < depth →
    Nat.repeat Rules.interpolated depth bottom l = Lexer.interpolation l
  parts : ∀ (c : Cursor) (n : Nat),
    Loop (fun () => Rules.piece Lexer.interpolation (c.advance n)) () (.ofCursor c l.options)
      (Rules.pieces Lexer.interpolation (c.advance n) (.ofCursor c l.options))

theorem concludes {start : Lexer} (hstart : start.lookahead = none)
    (h : Run Lexer.interpolation start ts l) : Concludes l where
  all := by
    refine (loop_iff (fun m => ∃ us, Run Lexer.interpolation start us m) ?_ ⟨ts, h⟩).mpr rfl
    rintro _ m found _ k ⟨us, hm⟩ hround
    obtain ⟨t, n, hnext, hrest⟩ := exists_of_bind hround
    have hends := (ends_next hm).of_ok hnext
    cases t with
    | none => cases hrest
    | some t =>
      obtain ⟨n, ahead, hn, hsize, hview, -, rfl⟩ := hends
      cases hrest
      have hlt := (hn.sound hstart).size_consume_lt hview
      exact ⟨⟨_, hn.consume hview⟩, by omega⟩
  collectUntil go b := by
    refine ⟨unfold size (Rules.round Lexer.interpolation go) b l, ?_, ?_⟩
    · refine (loop_iff (fun m => ∃ us, Run Lexer.interpolation start us m) ?_ ⟨ts, h⟩).mpr rfl
      rintro b m found b' k ⟨us, hm⟩ hround
      obtain ⟨hk, -, _, -, -, hlt⟩ := (ends_round hstart hm go b).of_ok hround
      exact ⟨⟨_, hk⟩, hlt⟩
    · rw [Lexer.collectUntil, Rules.collectUntil_eq, bind_apply]
      cases unfold size (Rules.round Lexer.interpolation go) b l <;> rfl
  interpolation bottom depth hdepth := unrolls_interpolation bottom l depth hdepth
  parts c n := loop_piece_iff.mpr rfl

/-- **Lexing ends, with no more tokens than bytes.**  Wherever a lexer starts and whatever it was
asked since, also where calls failed, it gave at most as many tokens as there are bytes from its
start to the end of the token consumed last; and all calls that go through tokens come to an end by
themselves, also those of the lexers that read the interpolations of special functions. -/
theorem lexing_ends (c : Cursor) (options : Options) (calls : List Call) :
    c.offset + (given calls (ofCursor c options)).length ≤
      ((ofCursor c options).after calls).previousEnd.offset ∧
    ((ofCursor c options).after calls).previousEnd.offset ≤ c.offset + c.rest.byteLength ∧
    Concludes ((ofCursor c options).after calls) ∧
    ∀ l : Lexer, l.lookahead = none → Concludes l := by
  have hstart : Run Lexer.interpolation (ofCursor c options) [] (ofCursor c options) := .start
  obtain ⟨new, hrun, hlength⟩ := run_given rfl calls hstart
  have hpaid := hrun.paid
  refine ⟨?_, ?_, concludes rfl hrun, fun l hview => concludes hview .start⟩
  · have htokens := hpaid.tokens
    have hcut := hpaid.cut
    rw [List.nil_append] at htokens
    omega
  · have hsound := hrun.sound rfl
    have hfront :
        ((ofCursor c options).after calls).front.offset ≤ c.offset + c.rest.byteLength := by
      have hrest := congrArg Text.byteLength hsound.front.rest_eq
      rw [Text.byteLength_append] at hrest
      rw [hsound.front.offset_eq]
      show c.offset + _ ≤ c.offset + Text.byteLength (ofCursor c options).cursor.rest
      omega
    exact Nat.le_trans hpaid.ends.offset_le hfront

end Lexer
end Stylesheet
