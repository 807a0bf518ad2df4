import Stylesheet.Grammar.Declaration
import Stylesheet.Grammar.Selector
import Stylesheet.Proofs.Cutoff
import Stylesheet.Proofs.SpecialFunction

/-!
# A line may end where a text does

Most forms take no newline, and for them the end of a line is as good as the end of the text: what
they take in front of a newline is what they take of the text alone (`StopsAtNewline`).  Only white
space, comments, quoted texts, addresses and parentheses may go on in another line.
-/
namespace Stylesheet

variable {α : Type}

/-- What a rule finds in front of a newline it finds where the text ends there. -/
def StopsAtNewline (rule : Text → Option α) : Prop :=
  ∀ t u : Text, rule (t ++ '\n' :: u) = rule t

namespace Text

/-- A run of characters that a newline is not one of. -/
theorem takeWhile_newline {p : Char → Bool} (hp : p '\n' = false) (t u : Text) :
    (t ++ '\n' :: u).takeWhile p = t.takeWhile p := by
  induction t with
  | nil => simp [hp]
  | cons c t ih => rw [List.cons_append, List.takeWhile_cons, List.takeWhile_cons, ih]

theorem dropWhile_newline {p : Char → Bool} (hp : p '\n' = false) (t u : Text) :
    (t ++ '\n' :: u).dropWhile p = t.dropWhile p ++ '\n' :: u := by
  induction t with
  | nil => simp [hp]
  | cons c t ih =>
    rw [List.cons_append, List.dropWhile_cons, List.dropWhile_cons, ih]
    split
    · rfl
    · rfl

/-- What comes behind something within a text. -/
theorem drop_newline {n : Nat} {t : Text} (h : n ≤ t.length) (u : Text) :
    (t ++ '\n' :: u).drop n = t.drop n ++ '\n' :: u :=
  List.drop_append_of_le_length h

theorem take_newline {n : Nat} {t : Text} (h : n ≤ t.length) (u : Text) :
    (t ++ '\n' :: u).take n = t.take n :=
  List.take_append_of_le_length h

/-- For a class without the newline, a newline that comes next is as good as no character at all. -/
theorem any_head?_newline {p : Char → Bool} (hp : p '\n' = false) (t u : Text) :
    (t ++ '\n' :: u).head?.any p = t.head?.any p := by
  cases t with
  | nil => exact hp
  | cons c t => rfl

/-- Whether a text begins with a word that has no newline in it. -/
theorem isPrefixOf_newline {word : Text} (hword : '\n' ∉ word) (t u : Text) :
    word.isPrefixOf (t ++ '\n' :: u) = word.isPrefixOf t := by
  induction word generalizing t with
  | nil => rw [List.isPrefixOf_nil_left, List.isPrefixOf_nil_left]
  | cons c word ih =>
    obtain ⟨hc, hword⟩ := not_or.mp (mt List.mem_cons.mpr hword)
    cases t with
    | nil => simp [List.isPrefixOf, Ne.symm hc]
    | cons d t => rw [List.cons_append, List.isPrefixOf, List.isPrefixOf, ih hword]

/-- A name ends in front of a newline. A backslash before the newline is no part of it, as at the
end of the text. -/
theorem nameLength_newline (t u : Text) : nameLength (t ++ '\n' :: u) = nameLength t := by
  induction t using nameLength.induct with
  | case1 c t hc ih =>
    rw [List.cons_append, List.cons_append, nameLength, nameLength, if_pos hc, ih, if_pos hc]
  | case2 c t hc =>
    rw [List.cons_append, List.cons_append, nameLength, nameLength, if_neg hc, if_neg hc]
  | case3 c t _ hc ih => rw [List.cons_append, nameLength_of_body hc, nameLength_of_body hc, ih]
  | case4 c t hescape hc =>
    by_cases hbackslash : c = '\\'
    · subst hbackslash
      cases t with
      | nil => rfl
      | cons d t => exact absurd rfl (hescape d t rfl)
    · replace hc := eq_false_of_ne_true hc
      rw [List.cons_append, nameLength_of_not_body hc hbackslash,
        nameLength_of_not_body hc hbackslash]
  | case5 => rfl

end Text

namespace Recognizer

variable {form first second : Recognizer}

theorem newline_one {p : Char → Bool} (hp : p '\n' = false) : StopsAtNewline (one p) := by
  rintro (_ | ⟨c, t⟩) u
  · show (if p '\n' then some 1 else none) = none
    rw [hp]
    rfl
  · rfl

theorem newline_run {p : Char → Bool} (hp : p '\n' = false) : StopsAtNewline (run p) := by
  intro t u
  rw [run, run, Text.takeWhile_newline hp]

theorem newline_run₁ {p : Char → Bool} (hp : p '\n' = false) : StopsAtNewline (run₁ p) := by
  rintro (_ | ⟨c, t⟩) u
  · show (if p '\n' then _ else none) = none
    rw [hp]
    rfl
  · rw [List.cons_append, run₁, run₁, Text.takeWhile_newline hp]

theorem newline_literal {word : Text} (hword : '\n' ∉ word) : StopsAtNewline (literal word) := by
  intro t u
  rw [literal, literal, Text.isPrefixOf_newline hword]

/-- A word that is longer than what is left would have to go on with the newline. -/
theorem newline_caseless {word : Text} (hword : '\n' ∉ word) : StopsAtNewline (caseless word) := by
  intro t u
  by_cases hle : word.length ≤ t.length
  · rw [caseless, caseless, Text.take_newline hle]
  · have hshort : caseless word t = none :=
      Option.eq_none_iff_forall_ne_some.mpr fun n hn =>
        hle ((caseless_eq_some.mp hn).2 ▸ le_of_caseless hn)
    refine (Option.eq_none_iff_forall_ne_some.mpr fun n hn => hword ?_).trans hshort.symm
    -- The word would have to go on with the newline.
    rw [← (caseless_eq_some.mp hn).1]
    have hmem : '\n' ∈ (t ++ '\n' :: u).take word.length := by
      rw [List.take_append, List.mem_append]
      refine .inr ?_
      obtain ⟨k, hk⟩ := Nat.exists_eq_add_of_lt (Nat.lt_of_not_le hle)
      rw [show word.length - t.length = k + 1 by omega, List.take_succ_cons]
      exact List.mem_cons_self
    exact List.mem_map.mpr ⟨'\n', hmem, rfl⟩

theorem newline_upTo (n : Nat) {p : Char → Bool} (hp : p '\n' = false) :
    StopsAtNewline (upTo n p) := by
  intro t u
  unfold upTo
  rcases Nat.lt_or_ge t.length n with hlt | hle
  · obtain ⟨k, rfl⟩ := Nat.exists_eq_add_of_lt hlt
    rw [List.take_append, List.take_of_length_le (Nat.le_of_lt hlt),
      show t.length + k + 1 - t.length = k + 1 by omega, List.take_succ_cons, newline_run₁ hp]
  · rw [Text.take_newline hle]

/-- The second form starts within the text, because the first one ends there. -/
theorem newline_andThen (h : first.Stable) (hfirst : StopsAtNewline first)
    (hsecond : StopsAtNewline second) : StopsAtNewline (first.andThen second) := by
  intro t u
  unfold andThen
  rw [hfirst]
  cases hn : first t with
  | none => rfl
  | some n =>
    simp only [Option.bind_eq_bind, Option.bind_some]
    rw [Text.drop_newline (h.bounded hn), hsecond]

theorem newline_orElse (hfirst : StopsAtNewline first) (hsecond : StopsAtNewline second) :
    StopsAtNewline (first.orElse second) := by
  intro t u
  rw [orElse, orElse, hfirst, hsecond]

theorem newline_optional (h : StopsAtNewline form) : StopsAtNewline form.optional := by
  intro t u
  rw [optional, optional, h]

/-- What must not come next is looked for behind the form, so still in front of the newline. -/
theorem newline_notBefore (h : form.Stable) (hform : StopsAtNewline form) {p : Char → Bool}
    (hp : p '\n' = false) : StopsAtNewline (form.notBefore p) := by
  intro t u
  unfold notBefore
  rw [hform]
  cases hn : form t with
  | none => rfl
  | some n =>
    simp only [Option.bind_eq_bind, Option.bind_some]
    rw [Text.drop_newline (h.bounded hn), Text.any_head?_newline hp]

theorem bareIdentifier_cons {c : Char} (hc : c ≠ '\\') (t : Text) :
    bareIdentifier (c :: t) = if isNameStart c then some (Text.nameLength t + 1) else none := by
  unfold bareIdentifier
  split
  · next heq => exact absurd (List.cons.inj heq).1 hc
  · next heq =>
    cases heq
    rfl
  · next heq => cases heq

theorem newline_bareIdentifier : StopsAtNewline bareIdentifier := by
  rintro (_ | ⟨c, t⟩) u
  · rfl
  · by_cases hc : c = '\\'
    · subst hc
      cases t with
      | nil => rfl
      | cons d t =>
        rw [List.cons_append, List.cons_append, bareIdentifier, bareIdentifier,
          Text.nameLength_newline]
    · rw [List.cons_append, bareIdentifier_cons hc, bareIdentifier_cons hc, Text.nameLength_newline]

theorem newline_identifier : StopsAtNewline identifier := by
  rw [identifier_eq]
  exact newline_orElse
    (newline_andThen (stable_literal _) (newline_literal (by decide)) newline_bareIdentifier)
    newline_bareIdentifier

theorem newline_name : StopsAtNewline name := by
  intro t u
  rw [name, name, Text.nameLength_newline]

/-- A comment of one line takes what is left of the line. -/
theorem newline_lineComment : StopsAtNewline lineComment := by
  rw [lineComment_eq]
  exact newline_andThen (stable_literal _) (newline_literal (by decide)) (newline_run rfl)

theorem newline_unicodeRange : StopsAtNewline unicodeRange := by
  refine newline_andThen (stable_one _) (newline_one rfl) ?_
  refine newline_andThen (stable_literal _) (newline_literal (by decide)) ?_
  refine newline_andThen (stable_upTo _ _) (newline_upTo _ rfl) (newline_optional ?_)
  exact newline_andThen (stable_literal _) (newline_literal (by decide)) (newline_upTo _ rfl)

open specialHead in
/-- The name of a special function stands on one line with its parenthesis. -/
theorem newline_specialHead : StopsAtNewline specialHead := by
  have hvendor : StopsAtNewline vendor := by
    refine newline_andThen (stable_literal _) (newline_literal (by decide)) ?_
    exact newline_andThen (stable_run₁ _) (newline_run₁ (by decide)) (newline_literal (by decide))
  have hcalculation : StopsAtNewline calculation :=
    newline_andThen fixed_vendor.2.optional (newline_optional hvendor)
      (newline_caseless (by decide))
  have hprogid : StopsAtNewline progid :=
    newline_andThen (stable_caseless _) (newline_caseless (by decide)) (newline_run (by decide))
  refine newline_andThen ?_ ?_ (newline_literal (by decide))
  · exact stable_calculation.orElse ((stable_caseless _).orElse stable_progid)
  · exact newline_orElse hcalculation (newline_orElse (newline_caseless (by decide)) hprogid)

end Recognizer

/-! ### Tokens -/

namespace Lexeme

/-- A rule that takes what a form takes. -/
theorem newline_of_form {form : Recognizer} (hform : form.Stable) (h : StopsAtNewline form)
    {rule : Text → Option Lexeme} (k : Text → TokenKind)
    (hrule : ∀ t, rule t = (form t).map fun n => { kind := k (t.take n), length := n }) :
    StopsAtNewline rule := by
  intro t u
  rw [hrule, hrule, h]
  cases hn : form t with
  | none => rfl
  | some n => rw [Option.map_some, Option.map_some, Text.take_newline (hform.bounded hn)]

theorem newline_ident : StopsAtNewline ident? :=
  newline_of_form Recognizer.stable_identifier Recognizer.newline_identifier
    (fun v => .ident (Text.unescape v)) fun _ => rfl

theorem newline_unicodeRange : StopsAtNewline (span? Recognizer.unicodeRange .unicodeRange) :=
  newline_of_form Recognizer.stable_unicodeRange Recognizer.newline_unicodeRange
    .unicodeRange fun _ => rfl

/-- A word is told from longer names by the character behind it, and a newline makes no name longer.
-/
theorem newline_word {word : String} (hword : '\n' ∉ word.toList) (kind : TokenKind) :
    StopsAtNewline (word? word kind) := by
  intro t u
  rw [word?, word?, Recognizer.newline_notBefore (Recognizer.stable_literal _)
    (Recognizer.newline_literal hword) rfl]

theorem newline_bool : StopsAtNewline bool? := by
  intro t u
  rw [bool?, bool?, newline_word (by decide), newline_word (by decide)]

theorem newline_wordOp : StopsAtNewline wordOp? := by
  intro t u
  rw [wordOp?, wordOp?, newline_word (by decide), newline_word (by decide),
    newline_word (by decide)]

/-- No operator has a newline in it. -/
theorem newline_not_mem (o : Op) : '\n' ∉ o.text.toList := by
  cases o <;> decide

theorem newline_symbol (inside : Bool) : StopsAtNewline (symbol? inside) := by
  intro t u
  rw [symbol?, symbol?]
  simp only [Text.isPrefixOf_newline (newline_not_mem _)]

/-- The digits behind a point are on the line of the point. -/
theorem newline_fraction (t u : Text) : fraction (t ++ '\n' :: u) = fraction t := by
  rw [fraction, fraction, Text.dropWhile_newline (by decide)]
  cases t.dropWhile isDecimalDigit with
  | nil => rfl
  | cons c r =>
    rw [List.cons_append]
    split
    · next heq =>
      cases heq
      exact Text.takeWhile_newline (by decide) _ _
    · next hpoint =>
      split
      · next heq =>
        cases heq
        exact absurd rfl (hpoint _)
      · rfl

/-- The digits of a number with its point are within the text. -/
theorem numberSize_le (t : Text) : numberSize t ≤ t.length := by
  have hsplit :=
    congrArg List.length (List.takeWhile_append_dropWhile (p := isDecimalDigit) (l := t))
  rw [List.length_append] at hsplit
  have hfraction : (if (fraction t).isEmpty then 0 else (fraction t).length + 1) ≤
      (t.dropWhile isDecimalDigit).length := by
    split
    · exact Nat.zero_le _
    · next hsome =>
      cases hrest : t.dropWhile isDecimalDigit with
      | nil => exact absurd (by rw [fraction, hrest]; rfl) hsome
      | cons c r =>
        by_cases hc : c = '.'
        · subst hc
          have hle : (r.takeWhile isDecimalDigit).length ≤ r.length :=
            (List.takeWhile_prefix _).length_le
          rw [fraction_of_point hrest, List.length_cons]
          omega
        · refine absurd ?_ hsome
          rw [fraction_of_no_point fun v hv => hc (List.cons.inj (hrest.symm.trans hv)).1]
          rfl
  rw [numberSize]
  omega

theorem newline_unsigned (negative : Bool) : StopsAtNewline (unsigned? negative) := by
  intro t u
  have hsize : numberSize (t ++ '\n' :: u) = numberSize t := by
    rw [numberSize, numberSize, newline_fraction, Text.takeWhile_newline (by decide)]
  have hunit : unit (t ++ '\n' :: u) = unit t := by
    rw [unit, unit, hsize, Text.drop_newline (numberSize_le t), Text.takeWhile_newline (by decide)]
  rw [unsigned?, unsigned?, newline_fraction, Text.takeWhile_newline (by decide), hsize, hunit]

/-- A sign belongs to the digits behind it, and a newline is no digit. -/
theorem newline_number : StopsAtNewline number? := by
  rintro (_ | ⟨c, t⟩) u
  · exact newline_unsigned false [] u
  · rw [number?_eq, number?_eq, newline_unsigned, List.cons_append, List.head?_cons,
      List.head?_cons, List.drop_succ_cons, List.drop_succ_cons, List.drop_zero, List.drop_zero,
      newline_unsigned]

theorem length_le_of_colorDigits {t : Text} {n : Nat} (h : colorDigits? t = some n) :
    n ≤ t.length := by
  have hle : (t.takeWhile isHexDigit).length ≤ t.length := (List.takeWhile_prefix _).length_le
  unfold colorDigits? at h
  split at h
  · cases h
    omega
  · split at h
    · cases h
      omega
    · cases h

/-- The digits of a color are on its line, and so is what must not come behind them. -/
theorem newline_color : StopsAtNewline color? := by
  rintro (_ | ⟨c, t⟩) u
  · rfl
  · by_cases hc : c = '#'
    · subst hc
      have hdigits : colorDigits? (t ++ '\n' :: u) = colorDigits? t := by
        rw [colorDigits?, colorDigits?, Text.takeWhile_newline rfl]
      rw [List.cons_append, color?_eq, color?_eq, hdigits]
      cases hn : colorDigits? t with
      | none => rfl
      | some n =>
        have hle := length_le_of_colorDigits hn
        rw [Option.bind_some, Option.bind_some, Text.take_newline hle, Text.drop_newline hle,
          Text.any_head?_newline rfl]
    · have hnone : ∀ v, color? (c :: v) = none := by
        intro v
        unfold color?
        split
        · next heq => exact absurd (List.cons.inj heq).1 hc
        · rfl
      rw [List.cons_append, hnone, hnone]

/-- The rules that are tried last, for words, names and signs. -/
theorem newline_trailing (inside : Bool) : StopsAtNewline (trailing? inside) := by
  intro t u
  rw [trailing?, trailing?, newline_wordOp, newline_ident, newline_symbol]

/-! ### Within the text -/

/-- Where a segment ends, with what ends it, is within the text. -/
theorem length_le_of_segmentEnd {q : Quote} {t : Text} {n : Nat} {e : SegmentEnd}
    (h : segmentEnd? q t = some (n, e)) : n + e.length ≤ t.length := by
  fun_induction segmentEnd? q t generalizing n with
  | case1 => cases h
  | case2 c t ih =>
    obtain ⟨⟨m, _⟩, hm, hn⟩ := Option.map_eq_some_iff.mp h
    cases hn
    have hle := ih hm
    simp only [List.length_cons]
    omega
  | case3 t =>
    cases h
    simp [SegmentEnd.length]
  | case4 c t _ _ hopening =>
    cases h
    obtain ⟨u, rfl⟩ := List.head?_eq_some_iff.mp hopening.2.1
    simp [SegmentEnd.length]
  | case5 c t _ _ _ ih =>
    obtain ⟨⟨m, _⟩, hm, hn⟩ := Option.map_eq_some_iff.mp h
    cases hn
    have hle := ih hm
    simp only [List.length_cons]
    omega

variable {t : Text} {x : Lexeme}

theorem length_le_of_reference (h : reference? t = some x) : x.length ≤ t.length := by
  cases t with
  | nil => cases h
  | cons c t =>
    rw [reference?] at h
    split at h
    · split at h
      · next n hn =>
        cases h
        exact Nat.succ_le_succ (Recognizer.stable_identifier.bounded hn)
      · split at h
        · unfold reference?.spacedFlag? at h
          obtain ⟨n, hn, h⟩ := Option.bind_eq_some_iff.mp h
          obtain ⟨m, hm, h⟩ := Option.bind_eq_some_iff.mp h
          cases h
          have hblanks := (Recognizer.stable_run₁ isBlank).bounded hn
          have hword := Recognizer.le_of_caseless (notBefore_eq_some.mp hm).1
          rw [List.length_drop] at hword
          simp only [List.length_cons]
          omega
        · cases h
    · cases h

/-- A string is at least its quote, and ends where its first segment does. -/
theorem length_le_of_string {q : Quote} (h : string? q t = some x) : x.length ≤ t.length := by
  cases t with
  | nil => cases h
  | cons c t =>
    rw [string?] at h
    split at h
    · obtain ⟨y, hy, rfl⟩ := Option.map_eq_some_iff.mp h
      unfold segment? at hy
      split at hy
      · next n hn =>
        cases hy
        exact Nat.succ_le_succ (length_le_of_segmentEnd hn)
      · next n hn =>
        cases hy
        exact Nat.succ_le_succ (Nat.le_of_add_right_le (length_le_of_segmentEnd hn))
      · cases hy
    · cases h

theorem length_le_of_unsigned {negative : Bool} (h : unsigned? negative t = some x) :
    x.length ≤ t.length + if negative then 1 else 0 := by
  have hunit : (unit t).length ≤ t.length - numberSize t := by
    rw [← List.length_drop]
    exact (List.takeWhile_prefix _).length_le
  have hsize := numberSize_le t
  unfold unsigned? at h
  split at h
  · cases h
  · cases h
    simp only
    omega

theorem length_le_of_number (h : number? t = some x) : x.length ≤ t.length := by
  rw [number?_eq] at h
  split at h
  · next hsign =>
    obtain ⟨u, rfl⟩ := List.head?_eq_some_iff.mp hsign
    exact length_le_of_unsigned h
  · exact length_le_of_unsigned h

theorem length_le_of_color (h : color? t = some x) : x.length ≤ t.length := by
  unfold color? at h
  split at h
  · next u =>
    change color? ('#' :: u) = some x at h
    rw [color?_eq] at h
    obtain ⟨n, hn, h⟩ := Option.bind_eq_some_iff.mp h
    obtain ⟨color, -, h⟩ := Option.bind_eq_some_iff.mp h
    split at h
    · cases h
    · cases h
      exact Nat.succ_le_succ (length_le_of_colorDigits hn)
  · cases h

/-- What a form takes is within the text. -/
theorem length_le_of_form {form : Recognizer} (hform : form.Stable) {kind : Nat → TokenKind}
    (h : (form t).map (fun n => ({ kind := kind n, length := n } : Lexeme)) = some x) :
    x.length ≤ t.length := by
  obtain ⟨n, hn, rfl⟩ := Option.map_eq_some_iff.mp h
  exact hform.bounded hn

theorem length_le_of_word {word : String} {kind : TokenKind} (h : word? word kind t = some x) :
    x.length ≤ t.length := by
  obtain ⟨n, hn, rfl⟩ := Option.map_eq_some_iff.mp h
  exact (Recognizer.stable_literal _).bounded (notBefore_eq_some.mp hn).1

theorem length_le_of_symbol {inside : Bool} (h : symbol? inside t = some x) :
    x.length ≤ t.length := by
  obtain ⟨o, ho, rfl⟩ := Option.map_eq_some_iff.mp h
  have hfound := List.find?_some ho
  exact (List.isPrefixOf_iff_prefix.mp hfound).length_le

/-- **A token lies within the text.** -/
theorem length_le_of_at? {inside : Bool} (h : at? inside t = some x) : x.length ≤ t.length := by
  cases takenBy_of_at? h with
  | reference found => exact length_le_of_reference found
  | string q found => exact length_le_of_string found
  | number found => exact length_le_of_number found
  | color found => exact length_le_of_color found
  | bool found =>
    obtain ⟨w, -, kind, hword⟩ := word?_of_bool? found
    exact length_le_of_word hword
  | uri found => exact length_le_of_form Recognizer.stable_uri found
  | unicodeRange found => exact length_le_of_form Recognizer.stable_unicodeRange found
  | wordOp found =>
    obtain ⟨w, -, kind, hword⟩ := word?_of_wordOp? found
    exact length_le_of_word hword
  | ident found => exact length_le_of_form Recognizer.stable_identifier found
  | symbol found => exact length_le_of_symbol found

end Lexeme

/-! ### In front of a brace in another line -/

namespace Text

open Lexeme

/-- A comment that is open at the end of the text stays open. -/
theorem commentClose?_brace (t : Text) : commentClose? (t ++ ['\n', '\x7d']) = commentClose? t := by
  induction t using commentClose?.induct with
  | case1 t => rfl
  | case2 c t hstar ih =>
    have hlong : ∀ v, c = '*' → t ++ ['\n', '\x7d'] = '/' :: v → False := by
      rintro v hc hv
      cases t with
      | nil => simp at hv
      | cons d t => exact hstar t hc (by rw [(List.cons.inj hv).1])
    rw [List.cons_append, commentClose?, commentClose?, ih]
    · exact hstar
    · exact hlong
  | case3 => rfl

theorem quotedLength?_cons {q c : Char} (hc : c ≠ '\\') (t : Text) :
    quotedLength? q (c :: t) = if c = q then some 1 else (quotedLength? q t).map (· + 1) := by
  cases t <;> simp [quotedLength?, hc]

/-- Quoted text that is open at the end of the text stays open, for no quote is behind it. -/
theorem quotedLength?_brace {q : Char} (hq : q = '"' ∨ q = '\'') (t : Text) :
    quotedLength? q (t ++ ['\n', '\x7d']) = quotedLength? q t := by
  induction t using quotedLength?.induct q with
  | case1 => rcases hq with rfl | rfl <;> rfl
  | case2 t => rfl
  | case3 c t hc ih =>
    rw [List.cons_append, List.cons_append, quotedLength?, quotedLength?, if_neg hc, if_neg hc, ih]
  | case4 t hescape =>
    have hne : q ≠ '\\' := by rcases hq with rfl | rfl <;> decide
    rw [List.cons_append, quotedLength?_cons hne, quotedLength?_cons hne, if_pos rfl, if_pos rfl]
  | case5 c t hescape hc ih =>
    by_cases hbackslash : c = '\\'
    · subst hbackslash
      cases t with
      | nil => rcases hq with rfl | rfl <;> rfl
      | cons d t => exact absurd rfl (hescape d t rfl)
    · rw [List.cons_append, quotedLength?_cons hbackslash, quotedLength?_cons hbackslash, ih]

/-- An interpolation in a string opens in front of a brace if it opens there at all. -/
theorem opening_brace_iff (q : Quote) (c : Char) (t : Text) :
    (c = '#' ∧ (t ++ ['\n', '\x7d']).head? = some '\x7b' ∧
      (t ++ ['\n', '\x7d']).tail.head? ≠ some q.char) ↔
      c = '#' ∧ t.head? = some '\x7b' ∧ t.tail.head? ≠ some q.char := by
  rcases t with _ | ⟨d, _ | ⟨e, t⟩⟩
  · simp
  · cases q <;> simp [Quote.char]
  · exact Iff.rfl

theorem quoted_brace (t : Text) :
    Recognizer.quoted (t ++ ['\n', '\x7d']) = Recognizer.quoted t := by
  cases t with
  | nil => rfl
  | cons c t =>
    rw [List.cons_append, Recognizer.quoted, Recognizer.quoted]
    split
    · next hq => rw [quotedLength?_brace hq]
    · rfl

/-- A segment that is open at the end of the text stays open. -/
theorem segmentEnd?_brace (q : Quote) (t : Text) :
    segmentEnd? q (t ++ ['\n', '\x7d']) = segmentEnd? q t := by
  induction t using segmentEnd?.induct q with
  | case1 => cases q <;> rfl
  | case2 c t ih => rw [List.cons_append, List.cons_append, segmentEnd?, segmentEnd?, ih]
  | case3 t hescape => rw [List.cons_append, segmentEnd?_quote, segmentEnd?_quote]
  | case4 c t hescape hc hopening =>
    have hne : c ≠ '\\' := by rw [hopening.1]; decide
    rw [List.cons_append, segmentEnd?_cons hne, segmentEnd?_cons hne, if_neg hc, if_neg hc,
      if_pos hopening, if_pos ((opening_brace_iff q c t).mpr hopening)]
  | case5 c t hescape hc hopening ih =>
    by_cases hbackslash : c = '\\'
    · subst hbackslash
      cases t with
      | nil => cases q <;> rfl
      | cons d t => exact absurd rfl (hescape d t rfl)
    · rw [List.cons_append, segmentEnd?_cons hbackslash, segmentEnd?_cons hbackslash,
        if_neg hc, if_neg hc, if_neg hopening,
        if_neg (mt (opening_brace_iff q c t).mp hopening), ih]

/-- So a segment has the same text and the same end. -/
theorem segment?_brace (q : Quote) (t : Text) :
    segment? q (t ++ ['\n', '\x7d']) = segment? q t := by
  rw [segment?, segment?, segmentEnd?_brace]
  cases hend : segmentEnd? q t with
  | none => rfl
  | some r =>
    obtain ⟨n, e⟩ := r
    have hle : n ≤ t.length := Nat.le_of_add_right_le (length_le_of_segmentEnd hend)
    cases e <;> simp only [take_newline hle]

/-- White space in front of the parenthesis of an address may go on in the next line, but what comes
behind it there is a brace. -/
theorem closing_brace (t : Text) :
    addressLengths.closing (t ++ ['\n', '\x7d']) = addressLengths.closing t := by
  have hword : '\n' ∉ [')'] := by decide
  have hliteral := Recognizer.newline_literal hword
  unfold addressLengths.closing Recognizer.andThen Recognizer.run
  simp only [Option.bind_eq_bind, Option.bind_some]
  by_cases hall : t.takeWhile isBlank = t
  · have hlong : (t ++ ['\n', '\x7d']).takeWhile isBlank = t ++ ['\n'] := by
      rw [List.takeWhile_append, if_pos (congrArg List.length hall)]
      rfl
    rw [hall, hlong, List.drop_length, List.length_append, ← List.drop_drop, List.drop_left]
    rfl
  · have hlt : (t.takeWhile isBlank).length ≠ t.length :=
      fun hlength => hall ((List.takeWhile_prefix _).eq_of_length hlength)
    rw [List.takeWhile_append, if_neg hlt,
      drop_newline (List.takeWhile_prefix _).length_le, hliteral]

/-- An address without quotes ends at the same parenthesis or at none. -/
theorem addressLengths_brace (t : Text) :
    addressLengths (t ++ ['\n', '\x7d']) = addressLengths t := by
  induction t with
  | nil => rfl
  | cons c t ih =>
    have hhead : (t ++ ['\n', '\x7d']).head?.any (· != '\n') = t.head?.any (· != '\n') :=
      any_head?_newline rfl t _
    have hclosing := closing_brace (c :: t)
    rw [List.cons_append] at hclosing ⊢
    rw [addressLengths, addressLengths, ih, hhead, hclosing]

/-- White space before the end of a text goes on with the newline. -/
theorem takeWhile_brace {t : Text} (hall : t.takeWhile isBlank = t) :
    (t ++ ['\n', '\x7d']).takeWhile isBlank = t ++ ['\n'] := by
  rw [List.takeWhile_append, if_pos (congrArg List.length hall)]
  rfl

/-- An address that is open at the end of the text stays open. -/
theorem uri_brace (t : Text) : Recognizer.uri (t ++ ['\n', '\x7d']) = Recognizer.uri t := by
  have hinside : ∀ t : Text,
      (Recognizer.quoted.andThen addressLengths.closing).orElse (fun t => (addressLengths t).1)
          (t ++ ['\n', '\x7d']) =
        (Recognizer.quoted.andThen addressLengths.closing).orElse
          (fun t => (addressLengths t).1) t := by
    intro t
    rw [Recognizer.orElse, Recognizer.orElse, Recognizer.andThen, Recognizer.andThen,
      addressLengths_brace, quoted_brace]
    cases hn : Recognizer.quoted t with
    | none => rfl
    | some n =>
      simp only [Option.bind_eq_bind, Option.bind_some]
      rw [drop_newline (Recognizer.fixed_quoted.2.bounded hn), closing_brace]
  have hbody : ∀ t : Text,
      ((Recognizer.run isBlank).andThen ((Recognizer.quoted.andThen addressLengths.closing).orElse
          fun t => (addressLengths t).1)) (t ++ ['\n', '\x7d']) =
        ((Recognizer.run isBlank).andThen ((Recognizer.quoted.andThen addressLengths.closing).orElse
          fun t => (addressLengths t).1)) t := by
    intro t
    rw [Recognizer.andThen, Recognizer.andThen, Recognizer.run, Recognizer.run]
    simp only [Option.bind_eq_bind, Option.bind_some]
    by_cases hall : t.takeWhile isBlank = t
    · rw [takeWhile_brace hall, hall, List.drop_length, List.length_append, ← List.drop_drop,
        List.drop_left]
      rfl
    · have hlt : (t.takeWhile isBlank).length ≠ t.length :=
        fun hlength => hall ((List.takeWhile_prefix _).eq_of_length hlength)
      rw [List.takeWhile_append, if_neg hlt,
        drop_newline (List.takeWhile_prefix _).length_le, hinside]
  rw [Recognizer.uri, Recognizer.andThen, Recognizer.newline_caseless (by decide)]
  show _ = Option.bind (Recognizer.caseless "url(".toList t) _
  cases hn : Recognizer.caseless "url(".toList t with
  | none => rfl
  | some n =>
    simp only [Option.bind_eq_bind, Option.bind_some]
    rw [drop_newline (Recognizer.le_of_caseless hn), hbody]

/-- A parenthesis that is open at the end of the text stays open: a brace closes none. -/
theorem closingParen?_brace (parens braces : Nat) (t : Text) :
    closingParen? parens braces (t ++ ['\n', '\x7d']) = closingParen? parens braces t := by
  have hbound : ∀ n, closingParen? parens braces (t ++ ['\n', '\x7d']) = some n → n ≤ t.length := by
    intro n hn
    obtain ⟨u, v, hu, rfl⟩ := closingParen?_eq_some hn
    rcases List.append_eq_append_iff.mp hu with ⟨w, -, hw⟩ | ⟨w, rfl, hw⟩
    · have hmem : ')' ∈ w ++ ')' :: v := List.mem_append_right _ List.mem_cons_self
      rw [← hw] at hmem
      exact absurd hmem (by decide)
    · cases w with
      | nil => exact absurd (List.cons.inj hw).1 (by decide)
      | cons c w =>
        rw [List.length_append, List.length_cons]
        omega
  cases hshort : closingParen? parens braces t with
  | some n =>
    obtain ⟨-, hle, htake⟩ := closingParen?_take (t.drop n ++ ['\n', '\x7d']) hshort
    rwa [← List.append_assoc, List.take_append_drop] at htake
  | none =>
    refine Option.eq_none_iff_forall_ne_some.mpr fun n hn => ?_
    obtain ⟨-, -, htake⟩ := closingParen?_take (t.drop n) hn
    rw [List.take_append_of_le_length (hbound n hn), List.take_append_drop, hshort] at htake
    cases htake

end Text

/-! ### Selectors -/

namespace Grammar

open Recognizer

theorem newline_char {x : Char} (hx : x ≠ '\n') : StopsAtNewline (char x) :=
  newline_one (beq_eq_false_iff_ne.mpr hx.symm)

namespace Selector

theorem newline_combinator : StopsAtNewline combinator :=
  newline_one rfl

theorem newline_attributeOp : StopsAtNewline attributeOp :=
  newline_andThen (stable_one _).optional (newline_optional (newline_one rfl))
    (newline_char (by decide))

theorem newline_notHead : StopsAtNewline notHead :=
  newline_caseless (by decide)

end Selector
end Grammar
end Stylesheet
