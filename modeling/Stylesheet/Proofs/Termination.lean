import Stylesheet.Parse
import Stylesheet.Proofs.Rerun
import Stylesheet.Proofs.Spending

/-!
# Nothing cuts a parser short

The loops of a parser stop where nothing was used up, and its rules go no deeper there.  Neither
ever happens.  A loop comes to what it comes to without the comparison (`Loop`), because every round
that another one follows ends further in the text than it began; and a rule that uses itself comes
to the same answer whatever would stand at the bottom (`Unrolls`), because it uses itself on less.

With what a node has cost (`pays_statements`), `parse_progresses` says all of that of parsing a
text.
-/
namespace Stylesheet

section
variable {ε σ α β : Type}

/-! ### Loops and rules without the comparison -/

/-- What was found before the rest of a loop, in front of what that comes to. -/
def foundBefore (found : List α) : EStateM.Result ε σ (List α) → EStateM.Result ε σ (List α)
  | .ok more t => .ok (found ++ more) t
  | .error e t => .error e t

/-- What a loop comes to that goes on for as long as its rounds say. -/
inductive Loop (step : β → EStateM ε σ (List α × Option β)) :
    β → σ → EStateM.Result ε σ (List α) → Prop
  | stops {b : β} {s t : σ} {found : List α} (round : step b s = .ok (found, none) t) :
    Loop step b s (.ok found t)
  | fails {b : β} {s t : σ} {e : ε} (round : step b s = .error e t) : Loop step b s (.error e t)
  | goesOn {b b' : β} {s t : σ} {found : List α} {r : EStateM.Result ε σ (List α)}
    (round : step b s = .ok (found, some b') t) (others : Loop step b' t r) :
    Loop step b s (foundBefore found r)

section
variable {size : σ → Nat} {step : β → EStateM ε σ (List α × Option β)} (inv : σ → Prop)
  (shrinks : ∀ b s found b' t, inv s → step b s = .ok (found, some b') t → inv t ∧ size t < size s)
include shrinks

theorem loop_unfold {b : β} {s : σ} (hs : inv s) : Loop step b s (unfold size step b s) := by
  -- A round that another one follows leaves less, so the comparison never stops the loop.
  induction hn : size s using Nat.strongRecOn generalizing b s with
  | ind n ih =>
    rw [unfold_apply]
    cases hround : step b s with
    | error e t => exact .fails hround
    | ok found t =>
      obtain ⟨found, next⟩ := found
      cases next with
      | none => exact .stops hround
      | some b' =>
        obtain ⟨ht, hlt⟩ := shrinks b s found b' t hs hround
        have hothers := ih (size t) (hn ▸ hlt) (b := b') ht rfl
        simp only [if_pos hlt]
        cases hrest : unfold size step b' t with
        | error e u => exact .goesOn hround (hrest ▸ hothers)
        | ok more u => exact .goesOn hround (hrest ▸ hothers)

/-- **A loop whose rounds use something up is never cut short.** -/
theorem loop_iff {b : β} {s : σ} (hs : inv s) {r : EStateM.Result ε σ (List α)} :
    Loop step b s r ↔ unfold size step b s = r := by
  refine ⟨fun h => ?_, fun h => h ▸ loop_unfold inv shrinks hs⟩
  induction h with
  | stops round => rw [unfold_apply, round]
  | fails round => rw [unfold_apply, round]
  | @goesOn b b' s t found r round others ih =>
    obtain ⟨ht, hlt⟩ := shrinks b s found b' t hs round
    rw [unfold_apply, round]
    simp only [if_pos hlt, ih ht]
    cases r <;> rfl

end

/-- What a loop comes to that goes on for as long as its rounds answer `true`. -/
inductive LoopWhile (step : EStateM ε σ Bool) : σ → EStateM.Result ε σ Unit → Prop
  | stops {s t : σ} (round : step s = .ok false t) : LoopWhile step s (.ok () t)
  | fails {s t : σ} {e : ε} (round : step s = .error e t) : LoopWhile step s (.error e t)
  | goesOn {s t : σ} {r : EStateM.Result ε σ Unit} (round : step s = .ok true t)
    (others : LoopWhile step t r) : LoopWhile step s r

/-- A rule that uses itself comes to an answer however it goes on below a certain depth. -/
def Unrolls (size : σ → Nat) (rule : EStateM ε σ α → EStateM ε σ α) (p : EStateM ε σ α) : Prop :=
  ∀ bottom s depth, size s < depth → Nat.repeat rule depth bottom s = p s

/-- **A rule that uses itself on less is never cut short.** -/
theorem unrolls {size : σ → Nat} {rule : EStateM ε σ α → EStateM ε σ α} {p : EStateM ε σ α}
    (h : ∀ n q, (∀ t, size t < n → q t = p t) → ∀ s, size s ≤ n → rule q s = p s) :
    Unrolls size rule p := by
  intro bottom s depth
  induction depth generalizing s with
  | zero => exact fun hs => absurd hs (Nat.not_lt_zero _)
  | succ n ih => exact fun hs => h n _ ih s (Nat.le_of_lt_succ hs)

end

/-! ### Loops over tokens -/

namespace Lexer

/-- A loop over tokens is never cut short. -/
theorem loop_round_iff {β : Type} {go : β → Token → Option β} {b : β} {l : Lexer}
    (hfresh : l.lookahead = none) {r : EStateM.Result SyntaxError Lexer (List Token)} :
    Loop (Rules.round interpolation go) b l r ↔
      unfold size (Rules.round interpolation go) b l = r := by
  refine loop_iff (fun m => ∃ ts, Run interpolation l ts m) ?_ ⟨[], .start⟩
  rintro b m found b' k ⟨ts, hm⟩ hround
  obtain ⟨hk, -, _, -, -, hlt⟩ := (ends_round hfresh hm go b).of_ok hround
  exact ⟨⟨_, hk⟩, hlt⟩

theorem size_lt_of_left_lt {l m : Lexer} (hl : l.lookahead = none) (hm : m.lookahead = none)
    (h : m.cursor.left < l.cursor.left) : m.size < l.size := by
  have hone := pending_toNat_le m
  rw [size, size, front_of_lookahead hl, front_of_lookahead hm]
  omega

/-- A part of a special function takes some of what is left of it. -/
theorem left_lt_of_piece {stop : Cursor} {l m : Lexer} {found : List Piece}
    (hfresh : l.lookahead = none) (hleft : 0 < l.cursor.left)
    (h : Rules.piece interpolation stop l = .ok (found, some ()) m) :
    m.lookahead = none ∧ l.cursor.Before m.cursor ∧ m.cursor.left < l.cursor.left := by
  unfold Rules.piece at h
  split at h
  · cases h
  · split at h
    · next k hraw =>
      cases h
      have hpos : 0 < k := by
        unfold Rules.rawLength? at hraw
        split at hraw <;> cases hraw <;> decide
      exact ⟨hfresh, Cursor.before_advance k _, Nat.sub_lt hleft hpos⟩
    · next hraw =>
      have hinner := forward_interpolation { l with cursor := l.cursor.advance 2 } hfresh
      cases hrun : interpolation { l with cursor := l.cursor.advance 2 } with
      | error e k =>
        rw [hrun] at h
        cases h
      | ok tokens k =>
        rw [hrun] at h
        cases h
        obtain ⟨hnone, hbefore⟩ := hinner.of_ok hrun
        have hless : m.cursor.left ≤ l.cursor.left - 2 := hbefore.left_le
        exact ⟨hnone, (Cursor.before_advance 2 _).trans hbefore, by omega⟩

/-- The loop over the parts of a special function is never cut short. -/
theorem loop_piece_iff {c : Cursor} {n : Nat} {options : Options}
    {r : EStateM.Result SyntaxError Lexer (List Piece)} :
    Loop (fun () => Rules.piece interpolation (c.advance n)) () (.ofCursor c options) r ↔
      Rules.pieces interpolation (c.advance n) (.ofCursor c options) = r := by
  rw [Rules.pieces_eq]
  refine loop_iff (fun l => l.lookahead = none ∧ c.Before l.cursor) ?_ ⟨rfl, .refl c⟩
  rintro _ l found _ m ⟨hfresh, hahead⟩ hround
  -- In front of the end there is something left to read.
  have hstop : ¬ (c.advance n).offset ≤ l.cursor.offset := by
    intro hle
    unfold Rules.piece at hround
    rw [if_pos hle] at hround
    cases hround
  have hleft := hahead.left_lt (Cursor.before_advance n c) (Nat.lt_of_not_le hstop)
  obtain ⟨hm, hbefore, hlt⟩ := left_lt_of_piece hfresh (Nat.zero_lt_of_lt hleft) hround
  exact ⟨⟨hm, hahead.trans hbefore⟩, size_lt_of_left_lt hfresh hm hlt⟩

/-- The rule for interpolations is never cut short. -/
theorem unrolls_interpolation :
    Unrolls (fun l => l.cursor.left) Rules.interpolated interpolation := by
  refine unrolls fun n q hq l hl => ?_
  rw [interpolation_eq]
  unfold Rules.interpolated
  rw [bind_apply, bind_apply, collectUntil_congr forward_interpolation hq _ _ hl]

end Lexer

/-! ### Loops over productions -/

namespace Grammar

variable {α : Type}

/-- An answer to go on with is given only further in the text than at the start. -/
def Advances (goesOn : α → Bool) (p : Production α) : Prop :=
  ∀ s a t, p s = .ok a t → goesOn a = true →
    s.cursor.Before t.cursor ∧ s.cursor.offset < t.cursor.offset

/-- What an answer to go on with is worth has been passed. -/
theorem advances_of_pays {goesOn : α → Bool} {p : Production α} {worth : α → Nat}
    (h : ∀ c n, Pays c n n worth p) (hworth : ∀ a, goesOn a = true → 0 < worth a) :
    Advances goesOn p := by
  intro s a t hp ha
  obtain ⟨hahead, hpaid⟩ := (h s.cursor s.size s (.refl _) (Nat.le_refl _)).of_ok hp
  have hpos := hworth a ha
  have hleft : t.cursor.left < s.cursor.left := by
    show t.size < s.size
    omega
  exact ⟨hahead, hahead.offset_lt hleft⟩

theorem Advances.size_lt {goesOn : α → Bool} {p : Production α} (h : Advances goesOn p)
    {s t : State} {a : α} (hp : p s = .ok a t) (ha : goesOn a = true) : t.size < s.size := by
  obtain ⟨hahead, hlt⟩ := h s a t hp ha
  exact (Cursor.Before.refl s.cursor).left_lt hahead hlt

/-- A loop of a parser. Its rounds advance as long as they go on, and it comes to an end by
itself. -/
structure Proceeds (step : Unit → Production (List α × Option Unit)) (loop : Production (List α)) :
    Prop where
  advances : Advances (·.2.isSome) (step ())
  ends : ∀ s r, Loop step () s r ↔ loop s = r

theorem proceeds_of_pays {step : Unit → Production (List α × Option Unit)}
    {worth : List α × Option Unit → Nat} (h : ∀ c n, Pays c n n worth (step ()))
    (hworth : ∀ r, r.2.isSome = true → 0 < worth r) :
    Proceeds step (unfold State.size step ()) where
  advances := advances_of_pays h hworth
  ends s r := by
    refine loop_iff (fun _ => True) ?_ trivial
    rintro _ s found _ t - hround
    exact ⟨trivial, (advances_of_pays h hworth).size_lt hround rfl⟩

/-- A loop of a parser whose rounds only say whether to go on. -/
structure ProceedsWhile (step : Production Bool) (loop : Production Unit) : Prop where
  advances : Advances id step
  ends : ∀ s r, LoopWhile step s r ↔ loop s = r

theorem loopWhile_repeatWhile {step : Production Bool} (h : Advances id step) (s : State) :
    LoopWhile step s (repeatWhile State.size step s) := by
  induction hn : s.size using Nat.strongRecOn generalizing s with
  | ind n ih =>
    rw [repeatWhile_apply]
    cases hround : step s with
    | error e t => exact .fails hround
    | ok again t =>
      cases again with
      | false => exact .stops hround
      | true =>
        have hlt := h.size_lt hround rfl
        simp only [if_pos hlt]
        exact .goesOn hround (ih t.size (hn ▸ hlt) t rfl)

theorem advances_of_passes {p : Production Bool} (h : ∀ c n, Passes c n p) : Advances id p := by
  refine advances_of_pays h fun found hfound => ?_
  rw [show found = true from hfound]
  exact Nat.one_pos

theorem proceedsWhile_of_passes {step : Production Bool} (h : ∀ c n, Passes c n step) :
    ProceedsWhile step (repeatWhile State.size step) := by
  have hadvances : Advances id step := advances_of_passes h
  refine ⟨hadvances, fun s r => ⟨fun hloop => ?_, fun hr => hr ▸ loopWhile_repeatWhile hadvances s⟩⟩
  induction hloop with
  | stops round => rw [repeatWhile_apply, round]
  | fails round => rw [repeatWhile_apply, round]
  | goesOn round others ih =>
    rw [repeatWhile_apply, round]
    simp only [if_pos (hadvances.size_lt round rfl), ih]

theorem toNat_isSome_pos (r : List α × Option Unit) (h : r.2.isSome = true) :
    0 < r.2.isSome.toNat := by
  rw [h]
  exact Nat.one_pos

theorem ofRound_pos {worth : List α → Nat} (r : List α × Option Unit) (h : r.2.isSome = true) :
    0 < ofRound worth r :=
  Nat.lt_of_lt_of_le (toNat_isSome_pos r h) (Nat.le_max_right _ _)

end Grammar

/-! ### Rules for sequences and blocks -/

namespace Replica

open Grammar

/-- Every place with at most a number of characters left to read, as a replica of itself. -/
def itself (n : Nat) : Replica where
  place c d := d = c ∧ c.left ≤ n
  move := id
  lines := 0
  bytes := 0
  error := Eq
  stale := none
  earlier := []
  retried := Eq
  quiet_options _ := rfl
  filename_options _ := rfl
  line_move _ := rfl
  offset_move _ := rfl
  location h := congrArg Cursor.location h.1
  rest h := congrArg Cursor.rest h.1
  advance k h := ⟨congrArg (Cursor.advance k) h.1, Nat.le_trans (Nat.sub_le _ _) h.2⟩
  textSince h h' := by rw [h.1, h'.1]
  unexpected expected h := by rw [h.1]
  stray _ := rfl
  stale_ne _ := nofun
  retried_concat line h := congrArg (· ++ [line]) h

theorem lower_itself (ds : List Deprecation) : ds.map (Deprecation.lower 0) = ds :=
  List.map_id ds

theorem sameState_itself {n : Nat} {s : State} (h : s.size ≤ n) : (itself n).SameState s s where
  cursor := ⟨rfl, h⟩
  options := rfl
  blockEnd := .inl (by cases s.blockEnd <;> rfl)
  warnings := (lower_itself s.warnings).symm
  backtracks := rfl
  rollback := rfl

theorem eq_of_itself {n : Nat} {s t : State} (h : (itself n).SameState s t) :
    t = s ∧ s.size ≤ n := by
  obtain ⟨⟨hcursor, hle⟩, hoptions, hblockEnd, hwarnings, hbacktracks, hrollback⟩ := h
  have hblock : t.blockEnd = s.blockEnd := by
    rcases hblockEnd with hend | ⟨hnone, hend⟩
    · rw [hend]
      cases s.blockEnd <;> rfl
    · exact hend.trans hnone.symm
  replace hwarnings := hwarnings.trans (lower_itself s.warnings)
  replace hbacktracks : s.backtracks = t.backtracks := hbacktracks
  cases s
  cases t
  cases hcursor
  cases hoptions
  cases hblock
  cases hwarnings
  cases hbacktracks
  cases hrollback
  exact ⟨rfl, hle⟩

theorem sameNodes_itself {n : Nat} {ns ms : List Node} : (itself n).SameNodes ns ms ↔ ms = ns := by
  have hid : Node.transport id 0 = id :=
    funext fun n => (Node.transport_zero id n).trans (Node.relocate_id n)
  show ms = ns.map (Node.transport id 0) ↔ _
  rw [hid, List.map_id]

end Replica

namespace Grammar

theorem unrolls_sequence : Unrolls State.size Selector.sequenceBy Selector.sequence := by
  refine unrolls fun n q hq s hs => ?_
  rw [Selector.sequence_eq]
  unfold Selector.sequenceBy
  simp only [here, bind_apply, get_apply, pure_apply]
  rw [Selector.repeatWhile_congr (fun t ht => Selector.piece_congr hq ht) hs]

/-- Statements agree if the blocks in them do. -/
theorem statements_congr {n : Nat} {p : Production (List Node)}
    (h : ∀ t : State, t.size ≤ n → p t = block t) (nested : Bool) {s : State} (hs : s.size ≤ n) :
    statements p nested s = statements block nested s := by
  -- Nothing is moved, so runs that are alike are the same run.
  have hblock : (Replica.itself n).Follows (Replica.itself n).SameNodes p block := by
    intro t u htu
    obtain ⟨rfl, hle⟩ := Replica.eq_of_itself htu
    rw [h u hle]
    have hahead := yields_block (o := u.options) u (.refl u.cursor) rfl
    cases hrun : block u with
    | ok ns v =>
      have hless : v.size ≤ u.size := (hahead.of_ok hrun).1.1.left_le
      exact .ok (Replica.sameNodes_itself.mpr rfl)
        (Replica.sameState_itself (Nat.le_trans hless hle))
    | error e v =>
      have hless : v.size ≤ u.size := (hahead.of_error hrun).1.left_le
      exact .error rfl (Replica.sameState_itself (Nat.le_trans hless hle))
  have hruns := Replica.follows_statements hblock nested s s (Replica.sameState_itself hs)
  generalize statements p nested s = r, statements block nested s = r' at hruns ⊢
  cases hruns with
  | ok answers states =>
    rw [(Replica.eq_of_itself states).1, Replica.sameNodes_itself.mp answers]
  | error errors states =>
    rw [(Replica.eq_of_itself states).1, show _ = _ from errors]

/-- A block uses blocks only behind its opening brace. -/
theorem blockBy_congr {n : Nat} {p : Production (List Node)}
    (h : ∀ t : State, t.size < n → p t = block t) {s : State} (hs : s.size ≤ n) :
    blockBy p s = blockBy block s := by
  unfold blockBy
  rw [bind_apply, bind_apply]
  cases hbrace : expect '{' s with
  | error e t => rfl
  | ok _ t =>
    -- The brace was passed, so the statements have less left than the block had.
    have hpaid := ((pays_expect '{' (n := s.size)) s (.refl s.cursor) (Nat.le_refl _)).of_ok hbrace
    have hless : 1 + t.size ≤ s.size := hpaid.2
    have hlt : t.size < n := by omega
    simp only [bind_apply]
    rw [statements_congr (n := t.size) (fun u hu => h u (Nat.lt_of_le_of_lt hu hlt)) true
      (Nat.le_refl _)]

theorem block_eq : block = blockBy block := by
  funext s
  rw [block, recurse_apply, ← block]
  exact blockBy_congr (fun t ht => if_pos ht) (Nat.le_refl _)

theorem unrolls_block : Unrolls State.size blockBy block := by
  refine unrolls fun n q hq s hs => ?_
  rw [block_eq]
  exact blockBy_congr hq hs

/-! ### Parsing a text -/

/-- Every part of a parser makes progress.  A statement ends further in the text than it began, and
so does a round of a loop that another one follows; and all loops and rules end by themselves, those
of the lexers too. -/
structure Progresses : Prop where
  statement : Advances (fun _ => true) (statement block)
  statements : ∀ nested, Proceeds (fun () => listStep block nested) (statements block nested)
  propertyName : ProceedsWhile namePiece (repeatWhile State.size namePiece)
  group : ProceedsWhile Selector.alternative (repeatWhile State.size Selector.alternative)
  selector : ProceedsWhile Selector.continuation (repeatWhile State.size Selector.continuation)
  sequence : ProceedsWhile (Selector.piece Selector.sequence)
    (repeatWhile State.size (Selector.piece Selector.sequence))
  parameters : Proceeds (fun () => Directive.item Directive.parameter)
    (unfold State.size (fun () => Directive.item Directive.parameter) ())
  arguments : Proceeds (fun () => Directive.item (expression .argument))
    (unfold State.size (fun () => Directive.item (expression .argument)) ())
  branches : Proceeds (fun () => Directive.alternative block)
    (unfold State.size (fun () => Directive.alternative block) ())
  tokens : ∀ {β : Type} (go : β → Token → Option β) (b : β) (l : Lexer), l.lookahead = none → ∀ r,
    Loop (Lexer.Rules.round Lexer.interpolation go) b l r ↔
      unfold Lexer.size (Lexer.Rules.round Lexer.interpolation go) b l = r
  parts : ∀ (c : Cursor) (n : Nat) (options : Options) r,
    Loop (fun () => Lexer.Rules.piece Lexer.interpolation (c.advance n)) ()
      (.ofCursor c options) r ↔
      Lexer.Rules.pieces Lexer.interpolation (c.advance n) (.ofCursor c options) = r
  blocks : Unrolls State.size blockBy block
  sequences : Unrolls State.size Selector.sequenceBy Selector.sequence
  interpolations : Unrolls (fun l => l.cursor.left) Lexer.Rules.interpolated Lexer.interpolation

theorem progresses : Progresses where
  statement :=
    advances_of_pays (fun _ _ => pays_statement fun _ => pays_block) fun n _ => n.count_pos
  statements nested :=
    proceeds_of_pays (fun _ _ => pays_listStep (fun _ => pays_block) nested) ofRound_pos
  propertyName := proceedsWhile_of_passes fun _ _ => passes_namePiece
  group := proceedsWhile_of_passes fun _ _ => Selector.passes_alternative
  selector := proceedsWhile_of_passes fun _ _ => Selector.passes_continuation
  sequence := proceedsWhile_of_passes fun _ _ => Selector.passes_piece fun _ =>
    Selector.plain_sequence
  parameters := proceeds_of_pays (fun _ _ => Directive.pays_item fun _ => Directive.plain_parameter)
    toNat_isSome_pos
  arguments :=
    proceeds_of_pays (fun _ _ => Directive.pays_item fun _ => plain_expression _) toNat_isSome_pos
  branches :=
    proceeds_of_pays (fun _ _ => Directive.pays_alternative fun _ => pays_block) ofRound_pos
  tokens _ _ _ hfresh _ := Lexer.loop_round_iff hfresh
  parts _ _ _ _ := Lexer.loop_piece_iff
  blocks := unrolls_block
  sequences := unrolls_sequence
  interpolations := Lexer.unrolls_interpolation

end Grammar

open Grammar

/-- What the statements of a text come to, as its document. -/
def documentOf (options : Options) :
    EStateM.Result SyntaxError State (List Node) → Except SyntaxError Node
  | .ok ns _ => .ok ⟨.root, options.line, ns⟩
  | .error e _ => .error e

theorem result_parse (source : Text) (options : Options) :
    (parse source options).result =
      documentOf options (statements block false (.start source options)) := by
  unfold parse document
  simp only [here, bind_apply, get_apply, pure_apply]
  cases statements block false (.start source options) <;> rfl

theorem Text.length_le_byteLength (t : Text) : t.length ≤ t.byteLength := by
  induction t with
  | nil => exact Nat.le_refl _
  | cons c t ih =>
    have hpos := Char.utf8Size_pos c
    rw [List.length_cons, byteLength_cons]
    omega

/-- The nodes that a text is read as have been paid for with its bytes. -/
theorem countOf_le_byteLength {source : Text} {options : Options} {ns : List Node} {t : State}
    (h : statements block false (.start source options) = .ok ns t) :
    Node.countOf ns ≤ source.byteLength := by
  have hpaid := pays_statements (n := source.length) (fun _ => pays_block) false
    (.start source options) (.refl _) (Nat.le_refl _)
  have hnodes : Node.countOf ns + t.size ≤ source.length := (hpaid.of_ok h).2
  exact Nat.le_trans (Nat.le_of_add_right_le hnodes) source.length_le_byteLength

/-- **Parsing ends and makes progress.**  Whatever the text and the options, every part of a parser
makes progress; the list of statements comes to an end by itself, and that is what the text is
parsed as; and the nodes of a document, with the branches behind others, are no more than the bytes
of the text. -/
theorem parse_progresses (source : Text) (options : Options) :
    Progresses ∧
      (∃ r, Loop (fun () => listStep block false) () (.start source options) r ∧
        (parse source options).result = documentOf options r) ∧
      ∀ tree, (parse source options).result = .ok tree →
        Node.countOf tree.children ≤ source.byteLength := by
  refine ⟨progresses, ⟨_, ?_, result_parse source options⟩, fun tree htree => ?_⟩
  · exact ((progresses.statements false).ends _ _).mpr rfl
  · rw [result_parse] at htree
    cases hrun : statements block false (.start source options) with
    | error e t =>
      rw [hrun] at htree
      cases htree
    | ok ns t =>
      rw [hrun] at htree
      cases htree
      exact countOf_le_byteLength hrun

/-- A branch behind another counts, and so do the nodes below it. -/
theorem parse_progresses_branches : ∃ tree,
    (parse "@if a{b:c}@else{d:e}".toList).result = .ok tree ∧ Node.countOf tree.children = 4 ∧
      Node.countOf tree.children ≤ 20 := by
  have hcount : ((parse "@if a{b:c}@else{d:e}".toList).result.toOption.map
      fun tree => Node.countOf tree.children) = some 4 := by decide +kernel
  cases hparse : (parse "@if a{b:c}@else{d:e}".toList).result with
  | error e =>
    rw [hparse] at hcount
    cases hcount
  | ok tree =>
    rw [hparse] at hcount
    exact ⟨tree, rfl, Option.some.inj hcount, (parse_progresses _ _).2.2 tree hparse⟩

end Stylesheet
