import Stylesheet.Proofs.LineEnd
import Stylesheet.Proofs.SpacedColon

/-!
# A text with more behind it

A `Seam` is where a text goes on that might have ended: a newline follows it, then a mark that ends
a statement, and then more.  Next to a semicolon the text holds no quotes, no parentheses and no
comments that may go on in another line; next to a closing brace there is nothing more, and the text
holds no interpolations.  Either way every form takes of the text what it would take if nothing
followed, but for white space, which goes on with the newline (`Seam.at?_behind`,
`Seam.triviaLength_behind`).

So a place in the text alone belongs to the place in the whole that has the same text before it, or,
at the end of the text, also to the one right before the mark (`Seam.Place`).
-/
namespace Stylesheet

/-- A text, with a newline, a mark that ends a statement and more text behind it. -/
structure Seam where
  text : Text
  mark : Char
  /-- What follows the mark. -/
  more : Text
  ascii : ∀ x ∈ text, x.toNat ≤ 0x7F
  /-- Nothing in the text can go on behind the newline. -/
  closed : (mark = ';' ∧ '"' ∉ text ∧ '\'' ∉ text ∧ '(' ∉ text ∧ ¬ ['/', '*'] <:+: text) ∨
    mark = '\x7d' ∧ more = [] ∧ ¬ ['#', '\x7b'] <:+: text

namespace Seam

variable (S : Seam)

/-- What follows the text. -/
def behind : Text :=
  '\n' :: S.mark :: S.more

variable {S} {t : Text}

/-- The mark is a semicolon or a closing brace. -/
theorem mark_cases : S.mark = ';' ∨ S.mark = '\x7d' :=
  S.closed.imp And.left And.left

theorem isBlank_mark : isBlank S.mark = false := by
  rcases S.mark_cases with h | h <;> rw [h] <;> rfl

theorem trivium_mark : Recognizer.trivium (S.mark :: S.more) = none := by
  refine Recognizer.trivium_eq_none isBlank_mark ?_
  rcases S.mark_cases with h | h <;> rw [h] <;> decide

/-! ### White space -/

theorem blanks_apply (t : Text) : Recognizer.blanks t =
    if (t.takeWhile isBlank).length = 0 then none else some (t.takeWhile isBlank).length := by
  cases t with
  | nil => rfl
  | cons c t =>
    rw [Recognizer.blanks, Recognizer.run₁, List.takeWhile_cons]
    split
    · rfl
    · rfl

/-- White space up to the end of the text goes on with the newline. -/
theorem takeWhile_behind (hall : t.takeWhile isBlank = t) :
    (t ++ S.behind).takeWhile isBlank = t ++ ['\n'] := by
  rw [List.takeWhile_append, if_pos (congrArg List.length hall), behind, List.takeWhile_cons,
    List.takeWhile_cons, isBlank_mark]
  rfl

theorem blanks_of_all (hall : t.takeWhile isBlank = t) :
    Recognizer.blanks (t ++ S.behind) = some (t.length + 1) := by
  rw [blanks_apply, takeWhile_behind hall, List.length_append, if_neg (by simp)]
  rfl

/-- White space that ends within the text ends there. -/
theorem takeWhile_of_ne (hall : t.takeWhile isBlank ≠ t) :
    (t ++ S.behind).takeWhile isBlank = t.takeWhile isBlank := by
  rw [List.takeWhile_append,
    if_neg fun hlength => hall ((List.takeWhile_prefix _).eq_of_length hlength)]

theorem blanks_of_ne (hall : t.takeWhile isBlank ≠ t) :
    Recognizer.blanks (t ++ S.behind) = Recognizer.blanks t := by
  rw [blanks_apply, takeWhile_of_ne hall, blanks_apply]

/-- Behind the text and the newline there is the mark. -/
theorem drop_behind : (t ++ S.behind).drop (t.length + 1) = S.mark :: S.more := by
  rw [← List.drop_drop, List.drop_left]
  rfl

/-! ### Forms that may go on in another line -/

section
variable (ht : t <:+ S.text)
include ht

theorem not_mem_of_suffix {x : Char} (h : x ∉ S.text) : x ∉ t :=
  fun hx => h (ht.subset hx)

theorem blockComment_behind :
    Recognizer.blockComment (t ++ S.behind) = Recognizer.blockComment t := by
  have hnone : ∀ w : Text, (∀ v, w ≠ '/' :: '*' :: v) → Recognizer.blockComment w = none := by
    intro w hw
    unfold Recognizer.blockComment
    split
    · exact absurd rfl (hw _)
    · rfl
  by_cases hopen : ∃ v, t = '/' :: '*' :: v
  · obtain ⟨v, rfl⟩ := hopen
    rcases S.closed with ⟨-, -, -, -, hcomment⟩ | ⟨hmark, hmore, -⟩
    · exact absurd ((List.prefix_append ['/', '*'] v).isInfix.trans ht.isInfix) hcomment
    · rw [behind, hmark, hmore]
      exact congrArg (Option.map _) (Text.commentClose?_brace v)
  · rw [hnone t fun v hv => hopen ⟨v, hv⟩, hnone _ fun v hv => ?_]
    rcases t with _ | ⟨c, _ | ⟨d, t⟩⟩
    · simp [behind] at hv
    · simp [behind] at hv
    · rw [List.cons_append, List.cons_append] at hv
      obtain ⟨hc, hv⟩ := List.cons.inj hv
      obtain ⟨hd, -⟩ := List.cons.inj hv
      exact hopen ⟨t, by rw [hc, hd]⟩

theorem string_behind (q : Quote) : Lexeme.string? q (t ++ S.behind) = Lexeme.string? q t := by
  cases t with
  | nil => cases q <;> rfl
  | cons c t =>
    rw [List.cons_append, Lexeme.string?, Lexeme.string?]
    split
    · next hq =>
      rcases S.closed with ⟨-, hdouble, hsingle, -, -⟩ | ⟨hmark, hmore, -⟩
      · cases q with
        | double => exact absurd (hq ▸ List.mem_cons_self) (not_mem_of_suffix ht hdouble)
        | single => exact absurd (hq ▸ List.mem_cons_self) (not_mem_of_suffix ht hsingle)
      · rw [behind, hmark, hmore, Text.segment?_brace]
    · rfl

theorem quoted_behind : Recognizer.quoted (t ++ S.behind) = Recognizer.quoted t := by
  cases t with
  | nil => rfl
  | cons c t =>
    rcases S.closed with ⟨-, hdouble, hsingle, -, -⟩ | ⟨hmark, hmore, -⟩
    · have hq : ¬ (c = '"' ∨ c = '\'') := by
        rintro (rfl | rfl)
        · exact not_mem_of_suffix ht hdouble List.mem_cons_self
        · exact not_mem_of_suffix ht hsingle List.mem_cons_self
      rw [List.cons_append, Recognizer.quoted, Recognizer.quoted, if_neg hq, if_neg hq]
    · rw [behind, hmark, hmore, Text.quoted_brace]

theorem uri_behind : Recognizer.uri (t ++ S.behind) = Recognizer.uri t := by
  rcases S.closed with ⟨-, -, -, hparen, -⟩ | ⟨hmark, hmore, -⟩
  · have hhead : Recognizer.caseless "url(".toList t = none := by
      refine Option.eq_none_iff_forall_ne_some.mpr fun n hn => not_mem_of_suffix ht hparen ?_
      have hmem : '(' ∈ (t.take "url(".toList.length).map foldCase := by
        rw [(Recognizer.caseless_eq_some.mp hn).1]
        decide
      obtain ⟨x, hx, hfold⟩ := List.mem_map.mp hmem
      rcases Grammar.foldCase_eq (by decide) (by decide) hfold with rfl | ⟨hle, -, heq⟩
      · exact List.mem_of_mem_take hx
      · rw [show '('.toNat = 40 from rfl] at heq
        omega
    have hlong : Recognizer.caseless "url(".toList (t ++ '\n' :: S.mark :: S.more) =
        Recognizer.caseless "url(".toList t :=
      Recognizer.newline_caseless (by decide) t (S.mark :: S.more)
    rw [Recognizer.uri, Recognizer.andThen, Recognizer.andThen, behind, hlong, hhead]
    rfl
  · rw [behind, hmark, hmore, Text.uri_brace]

omit ht in
theorem spacedFlag_behind :
    Lexeme.reference?.spacedFlag? (t ++ S.behind) = Lexeme.reference?.spacedFlag? t := by
  unfold Lexeme.reference?.spacedFlag?
  by_cases hall : t.takeWhile isBlank = t
  · -- Neither the mark nor the end of the text is the flag.
    have hmark : Recognizer.caseless Flag.important.word (S.mark :: S.more) = none := by
      refine Option.eq_none_iff_forall_ne_some.mpr fun n hn => ?_
      have hhead := Recognizer.specialHead.head?_of_caseless (c := 'i') hn
      rcases S.mark_cases with h | h <;> rw [h] at hhead <;> cases hhead
    have hnil : ∀ n ∈ Recognizer.blanks t, t.drop n = [] := by
      intro n hn
      rw [blanks_apply, hall] at hn
      split at hn
      · cases hn
      · cases hn
        exact List.drop_length
    rw [blanks_of_all hall]
    simp only [Option.bind_eq_bind, Option.bind_some, drop_behind, Recognizer.notBefore, hmark,
      Option.bind_none]
    cases hn : Recognizer.blanks t with
    | none => rfl
    | some n =>
      rw [Option.bind_some, hnil n hn]
      rfl
  · rw [blanks_of_ne hall]
    cases hn : Recognizer.blanks t with
    | none => rfl
    | some n =>
      have hle := (Recognizer.stable_run₁ isBlank).bounded hn
      simp only [Option.bind_eq_bind, Option.bind_some]
      rw [behind, Text.drop_newline hle, Recognizer.newline_notBefore (Recognizer.stable_caseless _)
        (Recognizer.newline_caseless (by decide)) rfl]
      cases hm : (Recognizer.caseless Flag.important.word).notBefore isNameChar (t.drop n) with
      | none => rfl
      | some m =>
        have hword : m ≤ (t.drop n).length :=
          Recognizer.le_of_caseless (Lexeme.notBefore_eq_some.mp hm).1
        rw [Option.bind_some, Option.bind_some, Text.take_newline hword]

theorem reference_behind : Lexeme.reference? (t ++ S.behind) = Lexeme.reference? t := by
  cases t with
  | nil => rfl
  | cons c t =>
    rw [List.cons_append, Lexeme.reference?, Lexeme.reference?, spacedFlag_behind, behind,
      Recognizer.newline_identifier]
    split
    · cases hn : Recognizer.identifier t with
      | none => rfl
      | some n => simp only [Text.take_newline (Recognizer.stable_identifier.bounded hn)]
    · rfl

theorem leading_behind : Lexeme.leading? (t ++ S.behind) = Lexeme.leading? t := by
  have huri :
      Lexeme.span? Recognizer.uri .uri (t ++ S.behind) = Lexeme.span? Recognizer.uri .uri t := by
    rw [Lexeme.span?, Lexeme.span?, uri_behind ht]
    cases hn : Recognizer.uri t with
    | none => rfl
    | some n =>
      rw [Option.map_some, Option.map_some, behind,
        Text.take_newline (Recognizer.stable_uri.bounded hn)]
  rw [Lexeme.leading?, Lexeme.leading?, reference_behind ht, string_behind ht, string_behind ht,
    huri, behind, Lexeme.newline_number, Lexeme.newline_color, Lexeme.newline_bool,
    Lexeme.newline_unicodeRange]

/-- **Every token of the text is found whatever follows.** -/
theorem at?_behind (inside : Bool) : Lexeme.at? inside (t ++ S.behind) = Lexeme.at? inside t := by
  rw [Lexeme.at?, Lexeme.at?, leading_behind ht, behind, Recognizer.newline_specialHead,
    Lexeme.newline_trailing]

omit ht in
theorem bangName_behind : Grammar.bangName? (t ++ S.behind) = Grammar.bangName? t := by
  rcases t with _ | ⟨c, t⟩
  · rfl
  · by_cases hc : c = '!'
    · subst hc
      rw [List.cons_append, Grammar.bangName?, Grammar.bangName?, Text.blankLength,
        Text.blankLength]
      by_cases hall : t.takeWhile isBlank = t
      · have hmark : Recognizer.identifier (S.mark :: S.more) = none := by
          rcases S.mark_cases with h | h <;> rw [h] <;> rfl
        rw [takeWhile_behind hall, hall, List.length_append, List.length_singleton, drop_behind,
          hmark, List.drop_length]
        rfl
      · rw [takeWhile_of_ne hall, behind, Text.drop_newline (List.takeWhile_prefix _).length_le,
          Recognizer.newline_identifier]
        cases hn : Recognizer.identifier (t.drop (t.takeWhile isBlank).length) with
        | none => rfl
        | some n =>
          simp only [Option.bind_eq_bind, Option.bind_some]
          rw [Text.take_newline (Recognizer.stable_identifier.bounded hn)]
    · have hnone : ∀ v, Grammar.bangName? (c :: v) = none := by
        intro v
        unfold Grammar.bangName?
        split
        · next heq => exact absurd (List.cons.inj heq).1 hc
        · rfl
      rw [List.cons_append, hnone, hnone]

/-! ### White space and comments -/

omit ht in
theorem triviaLength_of_all (hall : t.takeWhile isBlank = t) : t.triviaLength = t.length := by
  have hnil : Text.triviaLength [] = 0 := Text.triviaLength_of_none rfl
  cases t with
  | nil => exact hnil
  | cons c t =>
    have htrivium : Recognizer.trivium (c :: t) = some (c :: t).length := by
      rw [Recognizer.trivium, Recognizer.orElse, blanks_apply, hall, List.length_cons,
        if_neg (Nat.succ_ne_zero _)]
      rfl
    rw [Text.triviaLength_of_some htrivium, List.drop_length, hnil, Nat.add_zero]

/-- White space and comments end within the text, or they go on up to the mark. -/
theorem triviaLength_behind : (t ++ S.behind).triviaLength =
    if t.triviaLength = t.length then t.length + 1 else t.triviaLength := by
  induction hn : t.length using Nat.strongRecOn generalizing t with
  | ind n ih =>
    subst hn
    by_cases hall : t.takeWhile isBlank = t
    · have htrivium : Recognizer.trivium (t ++ S.behind) = some (t.length + 1) := by
        rw [Recognizer.trivium, Recognizer.orElse, blanks_of_all hall]
        rfl
      rw [if_pos (triviaLength_of_all hall), Text.triviaLength_of_some htrivium, drop_behind,
        Text.triviaLength_of_none trivium_mark]
    · have htrivium : Recognizer.trivium (t ++ S.behind) = Recognizer.trivium t := by
        have hline : Recognizer.lineComment (t ++ S.behind) = Recognizer.lineComment t :=
          Recognizer.newline_lineComment t _
        rw [Recognizer.trivium, Recognizer.orElse, Recognizer.orElse, Recognizer.orElse,
          Recognizer.orElse, blanks_of_ne hall, blockComment_behind ht, hline]
      cases hfound : Recognizer.trivium t with
      | none =>
        have hne : t.length ≠ 0 := by
          rintro hzero
          exact hall (by rw [List.length_eq_zero_iff.mp hzero]; rfl)
        rw [Text.triviaLength_of_none hfound, if_neg (Ne.symm hne),
          Text.triviaLength_of_none (htrivium.trans hfound)]
      | some k =>
        have hpos := Recognizer.positive_trivium t k hfound
        have hle := Recognizer.stable_trivium.bounded hfound
        have hrest := ih (t.drop k).length (by rw [List.length_drop]; omega)
          ((List.drop_suffix k t).trans ht) rfl
        rw [Text.triviaLength_of_some hfound, Text.triviaLength_of_some (htrivium.trans hfound),
          List.drop_append_of_le_length hle, hrest, List.length_drop]
        by_cases hend : Text.triviaLength (t.drop k) = t.length - k
        · rw [if_pos hend, if_pos (by omega)]
          omega
        · rw [if_neg hend, if_neg (by omega)]

end

end Seam

/-! ### Places -/

/-- The same place where the text goes on. -/
def Cursor.prolong (c : Cursor) (u : Text) : Cursor where
  past := c.past
  rest := c.rest ++ u
  location := c.location
  left := (c.rest ++ u).length
  left_eq := rfl

namespace Cursor

@[simp] theorem rest_prolong (c : Cursor) (u : Text) : (c.prolong u).rest = c.rest ++ u := rfl

@[simp] theorem location_prolong (c : Cursor) (u : Text) :
    (c.prolong u).location = c.location := rfl

@[simp] theorem offset_prolong (c : Cursor) (u : Text) : (c.prolong u).offset = c.offset := rfl

theorem textSince_prolong (c d : Cursor) (u : Text) :
    (c.prolong u).textSince (d.prolong u) = c.textSince d := rfl

/-- Within the text it makes no difference that the text goes on. -/
theorem advance_prolong {c : Cursor} {n : Nat} (h : n ≤ c.rest.length) (u : Text) :
    (c.prolong u).advance n = (c.advance n).prolong u := by
  have htake : (c.rest ++ u).take n = c.rest.take n := List.take_append_of_le_length h
  apply Cursor.ext
  · show ((c.rest ++ u).take n).reverse ++ c.past = (c.rest.take n).reverse ++ c.past
    rw [htake]
  · exact List.drop_append_of_le_length h
  · show c.location.after ((c.rest ++ u).take n) = c.location.after (c.rest.take n)
    rw [htake]

theorem skip_of_none {c : Cursor} {form : Recognizer} (h : form c.rest = none) :
    c.skip form = c := by
  rw [skip, pass?, h]
  rfl

theorem skip_of_some {c : Cursor} {form : Recognizer} {n : Nat} (h : form c.rest = some n) :
    c.skip form = c.advance n := by
  rw [skip, pass?, h]
  rfl

theorem skip_trivia_of_end {c : Cursor} (h : c.rest = []) : c.skip Recognizer.trivia = c := by
  refine skip_of_none ?_
  rw [h, Recognizer.trivia_eq_none_iff, Text.triviaLength_of_none rfl]

theorem skip_trivia (c : Cursor) : c.skip Recognizer.trivia = c.advance c.rest.triviaLength := by
  by_cases hzero : c.rest.triviaLength = 0
  · rw [skip_of_none (Recognizer.trivia_eq_none_iff.mpr hzero), hzero, advance_zero]
  · exact skip_of_some (Recognizer.trivia_eq_some.mpr ⟨Nat.pos_of_ne_zero hzero, rfl⟩)

theorem skip_blanks (c : Cursor) :
    c.skip Recognizer.blanks = c.advance (c.rest.takeWhile isBlank).length := by
  have hblanks := Seam.blanks_apply c.rest
  by_cases hzero : (c.rest.takeWhile isBlank).length = 0
  · rw [if_pos hzero] at hblanks
    rw [skip_of_none hblanks, hzero, advance_zero]
  · rw [if_neg hzero] at hblanks
    exact skip_of_some hblanks

end Cursor

namespace Seam

variable {S : Seam} {n k : Nat} {c d : Cursor}

variable (S) in
/-- A place in the text, with at most a number of characters of it left. -/
structure Inside (n : Nat) (c : Cursor) : Prop where
  bound : c.left ≤ n
  suffix : c.rest <:+ S.text
  offset : c.offset + c.rest.byteLength = S.text.byteLength

theorem Inside.mono (h : S.Inside n c) (hle : n ≤ k) : S.Inside k c :=
  { h with bound := Nat.le_trans h.bound hle }

theorem Inside.advance (h : S.Inside n c) (k : Nat) : S.Inside (n - k) (c.advance k) where
  bound := Nat.sub_le_sub_right h.bound k
  suffix := (List.drop_suffix k c.rest).trans h.suffix
  offset := by
    rw [Cursor.offset_advance, Cursor.rest_advance, Nat.add_assoc, ← Text.byteLength_append,
      List.take_append_drop, h.offset]

variable (S) in
/-- A place in the text and the same place in the whole. -/
structure Level (n : Nat) (c d : Cursor) : Prop extends S.Inside n c where
  same : d = c.prolong S.behind

variable (S) in
/-- A place in the text and a place in the whole that belongs to it.  To the end of the text belongs
also the place right before the mark. -/
inductive Place (n : Nat) (c : Cursor) : Cursor → Prop
  | level {d : Cursor} (h : S.Level n c d) : Place n c d
  | past (h : c.rest = []) : Place n c ((c.prolong S.behind).advance 1)

theorem Level.mono (h : S.Level n c d) (hle : n ≤ k) : S.Level k c d :=
  ⟨h.toInside.mono hle, h.same⟩

theorem Level.rest (h : S.Level n c d) : d.rest = c.rest ++ S.behind := by
  rw [h.same, Cursor.rest_prolong]

theorem Level.advance (h : S.Level n c d) (hle : k ≤ c.rest.length) :
    S.Level (n - k) (c.advance k) (d.advance k) := by
  refine ⟨h.toInside.advance k, ?_⟩
  rw [h.same, Cursor.advance_prolong hle]

theorem Place.level_of_ne (h : S.Place n c d) (hne : c.rest ≠ []) : S.Level n c d := by
  cases h with
  | level h => exact h
  | past h => exact absurd h hne

theorem rest_past (h : c.rest = []) : ((c.prolong S.behind).advance 1).rest = S.mark :: S.more := by
  rw [Cursor.rest_advance, Cursor.rest_prolong, h]
  rfl

variable (S) in
/-- Places that belong to each other, where the one in the whole is right before the mark if the
text ends. -/
structure Settled (n : Nat) (c d : Cursor) : Prop where
  place : S.Place n c d
  past : c.rest = [] → d = (c.prolong S.behind).advance 1

theorem Settled.stop (h : S.Settled n c d) (hend : c.rest = []) : d.rest = S.mark :: S.more := by
  rw [h.past hend, rest_past hend]

/-- Behind white space there is none, so at the end of the text the mark comes next. -/
theorem settled_of_advance (h : S.Level n c d) {k k' : Nat} (hle : k ≤ c.rest.length)
    (hk : k' = if k = c.rest.length then c.rest.length + 1 else k) :
    S.Settled n (c.advance k) (d.advance k') := by
  split at hk
  · next hend =>
    subst hk hend
    have hnil : (c.advance c.rest.length).rest = [] := List.drop_length
    have hplace :
        d.advance (c.rest.length + 1) = ((c.advance c.rest.length).prolong S.behind).advance 1 := by
      rw [h.same, ← Cursor.advance_advance, Cursor.advance_prolong (Nat.le_refl _)]
    rw [hplace]
    exact ⟨.past hnil, fun _ => rfl⟩
  · next hne =>
    subst hk
    refine ⟨.level ((h.advance hle).mono (Nat.sub_le _ _)), fun hnil => ?_⟩
    have hlength := congrArg List.length hnil
    rw [Cursor.rest_advance, List.length_drop, List.length_nil] at hlength
    omega

theorem settled_past (h : c.rest = []) : S.Settled n c ((c.prolong S.behind).advance 1) :=
  ⟨.past h, fun _ => rfl⟩

theorem Place.skip_trivia (h : S.Place n c d) :
    S.Settled n (c.skip Recognizer.trivia) (d.skip Recognizer.trivia) := by
  cases h with
  | past h =>
    have hmark : Recognizer.trivia ((c.prolong S.behind).advance 1).rest = none := by
      rw [rest_past h, Recognizer.trivia_eq_none_iff, Text.triviaLength_of_none trivium_mark]
    rw [Cursor.skip_trivia_of_end h, Cursor.skip_of_none hmark]
    exact settled_past h
  | level h =>
    rw [Cursor.skip_trivia, Cursor.skip_trivia]
    exact settled_of_advance h (Text.triviaLength_le _)
      (by rw [h.rest, triviaLength_behind h.suffix])

theorem Place.skip_blanks (h : S.Place n c d) :
    S.Settled n (c.skip Recognizer.blanks) (d.skip Recognizer.blanks) := by
  cases h with
  | past h =>
    have hmark : Recognizer.blanks ((c.prolong S.behind).advance 1).rest = none := by
      rw [rest_past h, blanks_apply, List.takeWhile_cons, isBlank_mark]
      rfl
    rw [Cursor.skip_of_none (h ▸ rfl), Cursor.skip_of_none hmark]
    exact settled_past h
  | level h =>
    rw [Cursor.skip_blanks, Cursor.skip_blanks]
    refine settled_of_advance h (List.takeWhile_prefix _).length_le ?_
    rw [h.rest]
    by_cases hall : c.rest.takeWhile isBlank = c.rest
    · rw [takeWhile_behind hall, if_pos (congrArg List.length hall), List.length_append]
      rfl
    · rw [takeWhile_of_ne hall, if_neg fun hlength =>
        hall ((List.takeWhile_prefix _).eq_of_length hlength)]

/-! ### Forms that end within the text -/

variable (S) in
/-- A form that takes of the text what it takes if the text ends, and nothing in front of the
mark. -/
structure Steady (form : Recognizer) : Prop where
  bounded : ∀ {t : Text} {n : Nat}, form t = some n → n ≤ t.length
  behind : ∀ {t : Text}, t <:+ S.text → form (t ++ S.behind) = form t
  nil : form [] = none
  mark : form (S.mark :: S.more) = none

theorem steady_of_newline {form : Recognizer}
    (bounded : ∀ {t : Text} {n : Nat}, form t = some n → n ≤ t.length) (h : StopsAtNewline form)
    (nil : form [] = none) (mark : ∀ x ∈ [';', '\x7d'], ∀ t, form (x :: t) = none) :
    S.Steady form where
  bounded := bounded
  behind _ := h _ _
  nil := nil
  mark := mark S.mark (by rcases S.mark_cases with h | h <;> rw [h] <;> decide) S.more

namespace Steady

variable {form : Recognizer} (h : S.Steady form)
include h

/-- The form is found in both texts or in neither. -/
theorem rest_eq (hplace : S.Place n c d) : form d.rest = form c.rest := by
  cases hplace with
  | level hlevel => rw [hlevel.rest, h.behind hlevel.suffix]
  | past hend => rw [rest_past hend, h.mark, hend, h.nil]

/-- What the form takes lies within the text. -/
theorem level (hplace : S.Place n c d) (hk : form c.rest = some k) :
    S.Level n c d ∧ k ≤ c.rest.length := by
  refine ⟨hplace.level_of_ne fun hnil => ?_, h.bounded hk⟩
  rw [hnil, h.nil] at hk
  cases hk

theorem sees (hplace : S.Place n c d) : d.sees form = c.sees form := by
  rw [Cursor.sees, Cursor.sees, h.rest_eq hplace]

theorem andThen {second : Recognizer}
    (bounded : ∀ {t : Text} {n : Nat}, second t = some n → n ≤ t.length)
    (behind : ∀ {t : Text}, t <:+ S.text → second (t ++ S.behind) = second t) :
    S.Steady (form.andThen second) where
  bounded := by
    intro t n hn
    obtain ⟨k, hk, m, hm, rfl⟩ := Recognizer.andThen_eq_some.mp hn
    have hfirst := h.bounded hk
    have hsecond := bounded hm
    rw [List.length_drop] at hsecond
    omega
  behind := by
    intro t ht
    rw [Recognizer.andThen, Recognizer.andThen, h.behind ht]
    cases hk : form t with
    | none => rfl
    | some k =>
      simp only [Option.bind_eq_bind, Option.bind_some]
      rw [List.drop_append_of_le_length (h.bounded hk), behind ((List.drop_suffix k t).trans ht)]
  nil := by
    rw [Recognizer.andThen, h.nil]
    rfl
  mark := by
    rw [Recognizer.andThen, h.mark]
    rfl

theorem orElse {second : Recognizer} (h' : S.Steady second) : S.Steady (form.orElse second) where
  bounded hn := by
    rcases Recognizer.orElse_eq_some.mp hn with hn | ⟨-, hn⟩
    · exact h.bounded hn
    · exact h'.bounded hn
  behind ht := by rw [Recognizer.orElse, Recognizer.orElse, h.behind ht, h'.behind ht]
  nil := by
    rw [Recognizer.orElse, h.nil]
    exact h'.nil
  mark := by
    rw [Recognizer.orElse, h.mark]
    exact h'.mark

end Steady
end Seam
end Stylesheet
