import Stylesheet.Token.Lexeme

/-!
# What the rules for tokens take

Each rule that finds a token at the front of a text takes at least one character and gives a token
of its own kind.  Only a rule for strings leaves something open, and then the text behind what it
takes goes on with the opening of an interpolation.  `Lexeme.at?` puts the rules together, in the
order they are tried; special functions are not among them.
-/
namespace Stylesheet

theorem orElse_eq_some_iff {α : Type} {a b : Option α} {x : α} :
    (a <|> b) = some x ↔ a = some x ∨ a = none ∧ b = some x := by
  cases a <;> simp

theorem orElse_eq_none_iff {α : Type} {a b : Option α} :
    (a <|> b) = none ↔ a = none ∧ b = none := by
  cases a <;> simp

namespace Recognizer

/-- A form of text that is never empty. -/
def Positive (form : Recognizer) : Prop :=
  ∀ t n, form t = some n → 0 < n

theorem positive_one (p : Char → Bool) : Positive (one p) := by
  intro t n h
  cases t with
  | nil => simp [one] at h
  | cons c t =>
    simp only [one] at h
    split at h
    · cases h; exact Nat.one_pos
    · cases h

theorem positive_literal {word : Text} (hword : word ≠ []) : Positive (literal word) := by
  intro t n h
  unfold literal at h
  split at h
  · cases h; exact List.length_pos_iff.mpr hword
  · cases h

theorem positive_caseless {word : Text} (hword : word ≠ []) : Positive (caseless word) := by
  intro t n h
  unfold caseless at h
  split at h
  · cases h; exact List.length_pos_iff.mpr hword
  · cases h

theorem Positive.andThen {first : Recognizer} (h : Positive first) (second : Recognizer) :
    Positive (first.andThen second) := by
  intro t n hn
  obtain ⟨k, hk, m, _, hm⟩ : ∃ k, first t = some k ∧
      ∃ m, second (t.drop k) = some m ∧ k + m = n := by
    simpa [Recognizer.andThen, Option.bind_eq_some_iff] using hn
  have := h t k hk
  omega

theorem Positive.after {second : Recognizer} (h : Positive second) (first : Recognizer) :
    Positive (first.andThen second) := by
  intro t n hn
  obtain ⟨k, hk, m, hm, hsum⟩ : ∃ k, first t = some k ∧
      ∃ m, second (t.drop k) = some m ∧ k + m = n := by
    simpa [Recognizer.andThen, Option.bind_eq_some_iff] using hn
  have := h _ m hm
  omega

theorem Positive.notBefore {form : Recognizer} (h : Positive form) (p : Char → Bool) :
    Positive (form.notBefore p) := by
  intro t n hn
  obtain ⟨k, hk, hif⟩ := Option.bind_eq_some_iff.mp hn
  split at hif
  · cases hif
  · cases hif; exact h t _ hk

theorem positive_bareIdentifier : Positive bareIdentifier := by
  intro t n h
  unfold bareIdentifier at h
  split at h
  · split at h
    · cases h; exact Nat.succ_pos _
    · cases h
  · split at h
    · cases h; exact Nat.succ_pos _
    · cases h
  · cases h

theorem positive_identifier : Positive identifier := by
  intro t n h
  unfold identifier at h
  split at h
  · obtain ⟨m, _, rfl⟩ := Option.map_eq_some_iff.mp h
    exact Nat.succ_pos m
  · exact positive_bareIdentifier _ n h

theorem positive_specialHead : Positive specialHead :=
  (positive_literal (by decide)).after _

theorem trivium_eq_none {x : Char} {t : Text} (hblank : isBlank x = false) (hslash : x ≠ '/') :
    trivium (x :: t) = none := by
  have hblock : blockComment (x :: t) = none := by
    unfold blockComment
    split
    · next h => exact absurd (List.cons.inj h).1 hslash
    · rfl
  have hline : lineComment (x :: t) = none := by
    unfold lineComment
    split
    · next h => exact absurd (List.cons.inj h).1 hslash
    · rfl
  have hblanks : blanks (x :: t) = none := by
    rw [blanks, run₁, if_neg (by rw [hblank]; exact Bool.false_ne_true)]
  simp only [trivium, orElse, hblanks, hblock, hline]
  rfl

/-- White space and comments begin with a white space character or a slash. -/
theorem trivia_eq_none {x : Char} {t : Text} (hblank : isBlank x = false) (hslash : x ≠ '/') :
    trivia (x :: t) = none := by
  have hlength : Text.triviaLength (x :: t) = 0 := by
    unfold Text.triviaLength
    simp only [trivium_eq_none hblank hslash]
  simp only [trivia, hlength]

end Recognizer

theorem Op.text_ne_nil (o : Op) : o.text.toList ≠ [] := by
  cases o <;> decide

/-- A kind of lexeme that neither opens nor closes anything and that is no legacy variable. -/
def TokenKind.Inert : TokenKind → Prop
  | .op _ => False
  | .string _ _ => False
  | .special _ => False
  | .var _ legacy => legacy = false
  | _ => True

namespace Lexeme

/-- The token at the front of a text by the rules that come before special functions, and, where
none begins, by those that come after. -/
def at? (inside : Bool) (t : Text) : Option Lexeme :=
  (leading? t).or (if (Recognizer.specialHead t).isSome then none else trailing? inside t)

/-! ### Strings -/

theorem segmentEnd?_interpolated {q : Quote} {t : Text} {n : Nat}
    (h : segmentEnd? q t = some (n, .interpolated)) : ∃ u, t.drop n = '#' :: '{' :: u := by
  fun_induction segmentEnd? q t generalizing n with
  | case1 => cases h
  | case2 c t ih =>
    obtain ⟨⟨m, e⟩, hm, he⟩ := Option.map_eq_some_iff.mp h
    cases he
    exact ih hm
  | case3 => cases h
  | case4 c t hesc hq hcut =>
    cases h
    obtain ⟨rfl, hbrace, _⟩ := hcut
    obtain ⟨u, rfl⟩ := List.head?_eq_some_iff.mp hbrace
    exact ⟨u, rfl⟩
  | case5 c t hesc hq hcut ih =>
    obtain ⟨⟨m, e⟩, hm, he⟩ := Option.map_eq_some_iff.mp h
    cases he
    exact ih hm

/-- A segment is a string in the quotes it was read in.  If it leaves a string open, the text goes
on with an interpolation. -/
theorem segment?_eq_some {q : Quote} {t : Text} {x : Lexeme} (h : segment? q t = some x) :
    (∃ v, x.kind = .string v q) ∧
      (x.opens = none ∨ x.opens = some q ∧ ∃ u, t.drop x.length = '#' :: '{' :: u) := by
  unfold segment? at h
  split at h
  · cases h
    exact ⟨⟨_, rfl⟩, .inl rfl⟩
  · next hend =>
    cases h
    exact ⟨⟨_, rfl⟩, .inr ⟨rfl, segmentEnd?_interpolated hend⟩⟩
  · cases h

theorem string?_eq_some {q : Quote} {t : Text} {x : Lexeme} (h : string? q t = some x) :
    (∃ v, x.kind = .string v q) ∧ 0 < x.length ∧
      (x.opens = none ∨ x.opens = some q ∧ ∃ u, t.drop x.length = '#' :: '{' :: u) := by
  cases t with
  | nil => cases h
  | cons c t =>
    rw [string?] at h
    split at h
    · obtain ⟨y, hy, rfl⟩ := Option.map_eq_some_iff.mp h
      obtain ⟨hkind, hopens⟩ := segment?_eq_some hy
      exact ⟨hkind, Nat.succ_pos _, hopens⟩
    · cases h

/-! ### Rules that leave nothing open -/

/-- A lexeme of at least one character that leaves no string open. -/
def Plain (x : Lexeme) : Prop :=
  0 < x.length ∧ x.opens = none

theorem reference?_eq_some {t : Text} {x : Lexeme} (h : reference? t = some x) :
    x.Plain ∧ ∃ name legacy, x.kind = .var name legacy ∧ (legacy = true → t.head? = some '!') := by
  cases t with
  | nil => cases h
  | cons c t =>
    rw [reference?] at h
    split at h
    · split at h
      · cases h
        exact ⟨⟨Nat.succ_pos _, rfl⟩, _, _, rfl, fun hc => congrArg some (of_decide_eq_true hc)⟩
      · split at h
        · next hc =>
          obtain ⟨n, _, hn⟩ := Option.bind_eq_some_iff.mp h
          obtain ⟨m, _, hm⟩ := Option.bind_eq_some_iff.mp hn
          cases hm
          exact ⟨⟨Nat.succ_pos _, rfl⟩, _, _, rfl, fun _ => congrArg some hc⟩
        · cases h
    · cases h

theorem number?_eq_some {t : Text} {x : Lexeme} (h : number? t = some x) :
    x.Plain ∧ ∃ v unit, x.kind = .number v unit := by
  unfold number? at h
  extract_lets negative digits whole fraction size unit at h
  split at h
  · cases h
  · next hdigits =>
    cases h
    refine ⟨⟨?_, rfl⟩, _, _, rfl⟩
    have hsize : 0 < size := by
      rcases Nat.eq_zero_or_pos whole.length with hw | hw
      · have hf : fraction.isEmpty = false := by
          rw [List.length_eq_zero_iff.mp hw] at hdigits
          simpa using hdigits
        show 0 < whole.length + (if fraction.isEmpty then 0 else fraction.length + 1)
        rw [if_neg (by rw [hf]; exact Bool.false_ne_true)]
        exact Nat.lt_of_lt_of_le (Nat.succ_pos _) (Nat.le_add_left _ _)
      · exact Nat.lt_of_lt_of_le hw (Nat.le_add_right _ _)
    show 0 < (if negative then 1 else 0) + size + unit.length
    omega

theorem color?_eq_some {t : Text} {x : Lexeme} (h : color? t = some x) :
    x.Plain ∧ ∃ v, x.kind = .color v := by
  unfold color? at h
  split at h
  · next t =>
    -- Whether six digits are taken or three, the rest of the rule is the same.
    have hdigits : ∀ n, ((Color.ofHex? (t.take n)).bind fun color =>
        if (t.drop n).head?.any isNameChar then none
        else some { kind := .color color, length := n + 1 }) = some x →
        x.Plain ∧ ∃ v, x.kind = .color v := by
      intro n hn
      obtain ⟨c, _, hc⟩ := Option.bind_eq_some_iff.mp hn
      split at hc
      · cases hc
      · cases hc
        exact ⟨⟨Nat.succ_pos _, rfl⟩, _, rfl⟩
    extract_lets m rest at h
    split at h
    · exact hdigits 6 h
    · split at h
      · exact hdigits 3 h
      · cases h
  · cases h

theorem word?_eq_some {word : String} (hword : word.toList ≠ []) {kind : TokenKind} {t : Text}
    {x : Lexeme} (h : word? word kind t = some x) : x.Plain ∧ x.kind = kind := by
  obtain ⟨n, hn, rfl⟩ := Option.map_eq_some_iff.mp h
  exact ⟨⟨(Recognizer.positive_literal hword).notBefore isNameChar t n hn, rfl⟩, rfl⟩

theorem bool?_eq_some {t : Text} {x : Lexeme} (h : bool? t = some x) :
    x.Plain ∧ ∃ b, x.kind = .bool b := by
  rcases orElse_eq_some_iff.mp h with h | ⟨_, h⟩
  · obtain ⟨hplain, hkind⟩ := word?_eq_some (by decide) h
    exact ⟨hplain, _, hkind⟩
  · obtain ⟨hplain, hkind⟩ := word?_eq_some (by decide) h
    exact ⟨hplain, _, hkind⟩

theorem span?_eq_some {form : Recognizer} (hform : form.Positive) {kind : Text → TokenKind}
    {t : Text} {x : Lexeme} (h : span? form kind t = some x) : x.Plain ∧ ∃ u, x.kind = kind u := by
  obtain ⟨n, hn, rfl⟩ := Option.map_eq_some_iff.mp h
  exact ⟨⟨hform t n hn, rfl⟩, _, rfl⟩

theorem ident?_eq_some {t : Text} {x : Lexeme} (h : ident? t = some x) :
    x.Plain ∧ ∃ name, x.kind = .ident name := by
  obtain ⟨n, hn, rfl⟩ := Option.map_eq_some_iff.mp h
  exact ⟨⟨Recognizer.positive_identifier t n hn, rfl⟩, _, rfl⟩

theorem wordOp?_eq_some {t : Text} {x : Lexeme} (h : wordOp? t = some x) :
    x.Plain ∧ ∃ o ∈ [Op.and, .or, .not], x.kind = .op o ∧ o.text.toList <+: t := by
  have hword : ∀ o ∈ [Op.and, .or, .not], word? o.text (.op o) t = some x →
      x.Plain ∧ ∃ o ∈ [Op.and, .or, .not], x.kind = .op o ∧ o.text.toList <+: t := by
    intro o ho hx
    obtain ⟨hplain, hkind⟩ := word?_eq_some o.text_ne_nil hx
    refine ⟨hplain, o, ho, hkind, ?_⟩
    obtain ⟨n, hn, _⟩ := Option.map_eq_some_iff.mp hx
    obtain ⟨m, hm, _⟩ := Option.bind_eq_some_iff.mp hn
    unfold Recognizer.literal at hm
    split at hm
    · next hfront => exact List.isPrefixOf_iff_prefix.mp hfront
    · cases hm
  rcases orElse_eq_some_iff.mp h with h | ⟨_, h⟩
  · exact hword .and (by decide) h
  · rcases orElse_eq_some_iff.mp h with h | ⟨_, h⟩
    · exact hword .or (by decide) h
    · exact hword .not (by decide) h

theorem symbol?_eq_some {inside : Bool} {t : Text} {x : Lexeme} (h : symbol? inside t = some x) :
    x.Plain ∧ ∃ o ∈ Op.symbols, o.text.toList <+: t ∧
      x.kind = .op (if o = .closeBrace ∧ inside then .closeInterpolation else o) := by
  obtain ⟨o, ho, rfl⟩ := Option.map_eq_some_iff.mp h
  have hmem : o ∈ Op.symbols := List.mem_of_find?_eq_some ho
  have hpos : 0 < o.text.length := by
    rw [← String.length_toList]
    exact List.length_pos_iff.mpr o.text_ne_nil
  have hfront : o.text.toList <+: t :=
    List.isPrefixOf_iff_prefix.mp (List.find?_some
      (p := fun op : Op => op.text.toList.isPrefixOf t) ho)
  refine ⟨⟨hpos, rfl⟩, o, hmem, hfront, ?_⟩
  show (if o = .closeBrace ∧ inside then TokenKind.op .closeInterpolation else .op o) = _
  split <;> rfl

/-! ### All rules -/

/-- The rule that finds a token at the front of a text. -/
inductive TakenBy (inside : Bool) (t : Text) (x : Lexeme) : Prop
  | reference (found : reference? t = some x)
  | string (q : Quote) (found : string? q t = some x)
  | number (found : number? t = some x)
  | color (found : color? t = some x)
  | bool (found : bool? t = some x)
  | uri (found : span? Recognizer.uri .uri t = some x)
  | unicodeRange (found : span? Recognizer.unicodeRange .unicodeRange t = some x)
  | wordOp (found : wordOp? t = some x)
  | ident (found : ident? t = some x)
  | symbol (found : symbol? inside t = some x)

theorem takenBy_of_at? {inside : Bool} {t : Text} {x : Lexeme} (h : at? inside t = some x) :
    TakenBy inside t x := by
  rcases Option.or_eq_some_iff.mp h with h | ⟨_, h⟩
  · unfold leading? at h
    simp only [orElse_eq_some_iff] at h
    rcases h with h | ⟨_, h | ⟨_, h | ⟨_, h | ⟨_, h | ⟨_, h | ⟨_, h | ⟨_, h⟩⟩⟩⟩⟩⟩⟩
    · exact .reference h
    · exact .string .double h
    · exact .string .single h
    · exact .number h
    · exact .color h
    · exact .bool h
    · exact .uri h
    · exact .unicodeRange h
  · split at h
    · cases h
    · unfold trailing? at h
      simp only [orElse_eq_some_iff] at h
      rcases h with h | ⟨_, h | ⟨_, h⟩⟩
      · exact .wordOp h
      · exact .ident h
      · exact .symbol h

/-- What is known of a token at the front of a text, by what it means to a lexer. -/
inductive Found (inside : Bool) (t : Text) (x : Lexeme) : Prop
  | string (v : Text) (q : Quote) (kind : x.kind = .string v q) (pos : 0 < x.length)
      (opens : x.opens = none ∨ x.opens = some q ∧ ∃ u, t.drop x.length = '#' :: '{' :: u)
  | op (o : Op) (plain : x.Plain) (kind : x.kind = .op o) (text : o.text.toList <+: t)
      (close : o = .closeInterpolation → inside = true) (brace : o = .closeBrace → inside = false)
  | legacy (name : Text) (plain : x.Plain) (kind : x.kind = .var name true)
      (text : t.head? = some '!')
  | inert (plain : x.Plain) (kind : x.kind.Inert)

theorem Found.pos {inside : Bool} {t : Text} {x : Lexeme} (h : Found inside t x) :
    0 < x.length := by
  cases h with
  | string _ _ _ pos _ => exact pos
  | op _ plain => exact plain.1
  | legacy _ plain => exact plain.1
  | inert plain => exact plain.1

/-- An operator is found where its text stands. -/
theorem Found.text_of_op {inside : Bool} {t : Text} {x : Lexeme} (h : Found inside t x) {o : Op}
    (hkind : x.kind = .op o) : o.text.toList <+: t := by
  cases h with
  | op o' _ kind text =>
    cases kind.symm.trans hkind
    exact text
  | string _ _ kind => cases kind.symm.trans hkind
  | legacy _ _ kind => cases kind.symm.trans hkind
  | inert _ kind => rw [hkind] at kind; exact kind.elim

/-- No lexeme is a special function. -/
theorem Found.kind_ne_special {inside : Bool} {t : Text} {x : Lexeme} (h : Found inside t x)
    (ps : List Piece) : x.kind ≠ .special ps := by
  intro hx
  cases h with
  | string _ _ kind => rw [hx] at kind; cases kind
  | op _ _ kind => rw [hx] at kind; cases kind
  | legacy _ _ kind => rw [hx] at kind; cases kind
  | inert _ kind => rw [hx] at kind; exact kind

/-- A legacy variable begins with its mark. -/
theorem Found.head?_of_legacy {inside : Bool} {t : Text} {x : Lexeme} (h : Found inside t x)
    {name : Text} (hkind : x.kind = .var name true) : t.head? = some '!' := by
  cases h with
  | legacy _ _ _ text => exact text
  | string _ _ kind => cases kind.symm.trans hkind
  | op _ _ kind => cases kind.symm.trans hkind
  | inert _ kind =>
    rw [hkind] at kind
    cases kind

theorem found_of_at? {inside : Bool} {t : Text} {x : Lexeme} (h : at? inside t = some x) :
    Found inside t x := by
  cases takenBy_of_at? h with
  | reference found =>
    obtain ⟨hplain, name, legacy, hkind, hhead⟩ := reference?_eq_some found
    cases legacy with
    | true => exact .legacy name hplain hkind (hhead rfl)
    | false => exact .inert hplain (by rw [hkind]; trivial)
  | string q found =>
    obtain ⟨⟨v, hkind⟩, hpos, hopens⟩ := string?_eq_some found
    exact .string v q hkind hpos hopens
  | number found =>
    obtain ⟨hplain, _, _, hkind⟩ := number?_eq_some found
    exact .inert hplain (by rw [hkind]; trivial)
  | color found =>
    obtain ⟨hplain, _, hkind⟩ := color?_eq_some found
    exact .inert hplain (by rw [hkind]; trivial)
  | bool found =>
    obtain ⟨hplain, _, hkind⟩ := bool?_eq_some found
    exact .inert hplain (by rw [hkind]; trivial)
  | uri found =>
    obtain ⟨hplain, _, hkind⟩ := span?_eq_some
      ((Recognizer.positive_caseless (by decide)).andThen _) found
    exact .inert hplain (by rw [hkind]; trivial)
  | unicodeRange found =>
    obtain ⟨hplain, _, hkind⟩ := span?_eq_some ((Recognizer.positive_one _).andThen _) found
    exact .inert hplain (by rw [hkind]; trivial)
  | wordOp found =>
    obtain ⟨hplain, o, ho, hkind, htext⟩ := wordOp?_eq_some found
    refine .op o hplain hkind htext ?_ ?_
    · rintro rfl
      exact absurd ho (by decide)
    · rintro rfl
      exact absurd ho (by decide)
  | ident found =>
    obtain ⟨hplain, _, hkind⟩ := ident?_eq_some found
    exact .inert hplain (by rw [hkind]; trivial)
  | symbol found =>
    obtain ⟨hplain, o, ho, htext, hkind⟩ := symbol?_eq_some found
    by_cases hclose : o = .closeBrace ∧ inside = true
    · rw [if_pos hclose] at hkind
      obtain ⟨rfl, hinside⟩ := hclose
      exact .op .closeInterpolation hplain hkind htext (fun _ => hinside) nofun
    · rw [if_neg hclose] at hkind
      refine .op o hplain hkind htext ?_ ?_
      · rintro rfl
        exact absurd ho (by decide)
      · rintro rfl
        exact Bool.eq_false_iff.mpr fun hinside => hclose ⟨rfl, hinside⟩

/-- Only the rules for strings give a string. -/
theorem string?_of_at? {inside : Bool} {t : Text} {x : Lexeme} (h : at? inside t = some x)
    {v : Text} {q : Quote} (hkind : x.kind = .string v q) : string? q t = some x := by
  cases takenBy_of_at? h with
  | string q' found =>
    obtain ⟨⟨_, hstring⟩, _⟩ := string?_eq_some found
    cases hstring.symm.trans hkind
    exact found
  | reference found =>
    obtain ⟨_, _, _, hother, _⟩ := reference?_eq_some found
    cases hother.symm.trans hkind
  | number found =>
    obtain ⟨_, _, _, hother⟩ := number?_eq_some found
    cases hother.symm.trans hkind
  | color found =>
    obtain ⟨_, _, hother⟩ := color?_eq_some found
    cases hother.symm.trans hkind
  | bool found =>
    obtain ⟨_, _, hother⟩ := bool?_eq_some found
    cases hother.symm.trans hkind
  | uri found =>
    obtain ⟨n, _, rfl⟩ := Option.map_eq_some_iff.mp found
    cases hkind
  | unicodeRange found =>
    obtain ⟨n, _, rfl⟩ := Option.map_eq_some_iff.mp found
    cases hkind
  | wordOp found =>
    obtain ⟨_, _, _, hother, _⟩ := wordOp?_eq_some found
    cases hother.symm.trans hkind
  | ident found =>
    obtain ⟨_, _, hother⟩ := ident?_eq_some found
    cases hother.symm.trans hkind
  | symbol found =>
    obtain ⟨_, _, _, _, hother⟩ := symbol?_eq_some found
    cases hother.symm.trans hkind

/-! ### The tokens around interpolations -/

theorem at?_nil (inside : Bool) : at? inside [] = none := rfl

theorem at?_openInterpolation (inside : Bool) (t : Text) :
    at? inside ('#' :: '{' :: t) = some { kind := .op .openInterpolation, length := 2 } := rfl

theorem at?_closeInterpolation (t : Text) :
    at? true ('}' :: t) = some { kind := .op .closeInterpolation, length := 1 } := rfl

theorem at?_closeBrace (t : Text) :
    at? false ('}' :: t) = some { kind := .op .closeBrace, length := 1 } := rfl

end Lexeme
end Stylesheet
