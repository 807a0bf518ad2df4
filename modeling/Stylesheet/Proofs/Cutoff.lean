import Stylesheet.Proofs.Stable

/-!
# Tokens at the end of a text that is cut off

A token that lies within a text is found there whatever follows the text, and also if nothing does
(`Lexeme.at?_append`).  Two things may lie beyond the token and still be looked at.  A string that
is cut short is followed by the opening of its interpolation, which has to be within the text as
well.  And whether a word is one depends on what follows it: behind the text no backslash may stand,
for it makes a word a name even where it does not go on with the name.
-/
namespace Stylesheet

/-! ### Strings -/

/-- How many characters the end of a segment takes: the closing quote, or the opening of the
interpolation that cuts it short. -/
def SegmentEnd.length : SegmentEnd → Nat
  | closed => 1
  | interpolated => 2

theorem segmentEnd?_cons {q : Quote} {c : Char} (h : c ≠ '\\') (t : Text) :
    segmentEnd? q (c :: t) =
      if c = q.char then some (0, .closed)
      else if c = '#' ∧ t.head? = some '{' ∧ t.tail.head? ≠ some q.char then some (0, .interpolated)
      else (segmentEnd? q t).map fun (n, e) => (n + 1, e) := by
  rw [segmentEnd?]
  exact fun _ _ hc => absurd hc h

theorem segmentEnd?_quote (q : Quote) (t : Text) :
    segmentEnd? q (q.char :: t) = some (0, .closed) := by
  cases q <;> rfl

/-- An opening that the closing quote cuts off is no opening. -/
theorem segmentEnd?_hash_quote (q : Quote) (t : Text) :
    segmentEnd? q ('#' :: '{' :: q.char :: t) = some (2, .closed) := by
  cases q <;> rfl

theorem ne_escape_of_segmentEnd? {q : Quote} {c : Char} {t : Text} {r : Nat × SegmentEnd}
    (hescape : ∀ d v, c = '\\' → t = d :: v → False) (h : segmentEnd? q t = some r) : c ≠ '\\' := by
  rintro rfl
  cases t with
  | nil => cases h
  | cons d t => exact hescape d t rfl rfl

/-- A string that ends within a text ends somewhere in every text that goes on. -/
theorem segmentEnd?_beyond {q : Quote} {t : Text} {r : Nat × SegmentEnd} (u : Text)
    (h : segmentEnd? q t = some r) : ∃ r', segmentEnd? q (t ++ u) = some r' := by
  fun_induction segmentEnd? q t generalizing r with
  | case1 => cases h
  | case2 c t ih =>
    obtain ⟨r, hr, -⟩ := Option.map_eq_some_iff.mp h
    obtain ⟨r', hr'⟩ := ih hr
    rw [List.cons_append, List.cons_append, segmentEnd?, hr']
    exact ⟨_, rfl⟩
  | case3 t hescape => exact ⟨_, segmentEnd?_quote q (t ++ u)⟩
  | case4 c t hescape hq hcut =>
    obtain ⟨rfl, hbrace, hquote⟩ := hcut
    obtain ⟨t, rfl⟩ := List.head?_eq_some_iff.mp hbrace
    by_cases hclose : (t ++ u).head? = some q.char
    · obtain ⟨v, hv⟩ := List.head?_eq_some_iff.mp hclose
      refine ⟨(2, .closed), ?_⟩
      rw [List.cons_append, List.cons_append, hv]
      exact segmentEnd?_hash_quote q v
    · refine ⟨(0, .interpolated), ?_⟩
      rw [List.cons_append, segmentEnd?_cons (by decide), if_neg hq, if_pos ⟨rfl, rfl, hclose⟩]
  | case5 c t hescape hq hcut ih =>
    obtain ⟨r, hr, -⟩ := Option.map_eq_some_iff.mp h
    obtain ⟨r', hr'⟩ := ih hr
    rw [List.cons_append, segmentEnd?_cons (ne_escape_of_segmentEnd? hescape hr), if_neg hq]
    split
    · exact ⟨_, rfl⟩
    · rw [hr']
      exact ⟨_, rfl⟩

/-- Whether an interpolation begins where a segment goes on does not depend on what follows the
text, if the segment ends within it. -/
theorem opening_append_iff {q : Quote} {c : Char} {t u : Text} {n : Nat} {e : SegmentEnd}
    (hc : c ≠ '\\') (hq : c ≠ q.char) (h : segmentEnd? q (c :: (t ++ u)) = some (n, e))
    (hle : n + e.length ≤ t.length + 1) :
    (c = '#' ∧ (t ++ u).head? = some '{' ∧ (t ++ u).tail.head? ≠ some q.char) ↔
      c = '#' ∧ t.head? = some '{' ∧ t.tail.head? ≠ some q.char := by
  constructor
  · intro hopen
    rw [segmentEnd?_cons hc, if_neg hq, if_pos hopen] at h
    cases h
    obtain ⟨rfl, hbrace, hquote⟩ := hopen
    cases t with
    | nil => exact absurd hle (by decide)
    | cons d t =>
      refine ⟨rfl, hbrace, fun ht => ?_⟩
      obtain ⟨v, rfl⟩ := List.head?_eq_some_iff.mp ht
      exact hquote rfl
  · rintro ⟨rfl, hbrace, hquote⟩
    obtain ⟨t, rfl⟩ := List.head?_eq_some_iff.mp hbrace
    refine ⟨rfl, rfl, fun hclose => ?_⟩
    cases t with
    | cons d t => exact hquote hclose
    | nil =>
      -- Only what follows the text could keep this from being an opening: a quote, and there the
      -- segment would end.
      obtain ⟨v, rfl⟩ := List.head?_eq_some_iff.mp hclose
      rw [List.cons_append, List.nil_append, segmentEnd?_hash_quote] at h
      cases h
      exact absurd hle (by decide)

/-- A segment of a string that ends within a text, with what ends it, ends there in the text
alone. -/
theorem segmentEnd?_within {q : Quote} {t u : Text} {n : Nat} {e : SegmentEnd}
    (h : segmentEnd? q (t ++ u) = some (n, e)) (hle : n + e.length ≤ t.length) :
    segmentEnd? q t = some (n, e) := by
  have hpos : 0 < e.length := by cases e <;> decide
  induction hlength : t.length using Nat.strongRecOn generalizing t n with
  | ind length ih =>
    -- What is left behind some characters is shorter, and the segment ends as many characters
    -- earlier.
    have hrest : ∀ {v : Text} {k : Nat}, 0 < k → v.length + k = t.length →
        ((segmentEnd? q (v ++ u)).map fun (m, e) => (m + k, e)) = some (n, e) →
        ((segmentEnd? q v).map fun (m, e) => (m + k, e)) = some (n, e) := by
      intro v k hk hv hmap
      obtain ⟨⟨m, e'⟩, hm, he⟩ := Option.map_eq_some_iff.mp hmap
      obtain ⟨rfl, rfl⟩ : m + k = n ∧ e' = e := by simpa using he
      rw [ih v.length (by omega) hm (by omega) rfl]
      rfl
    cases t with
    | nil =>
      rw [List.length_nil] at hle
      omega
    | cons c t =>
      by_cases hc : c = '\\'
      · subst hc
        cases t with
        | nil =>
          -- The escape takes a character of what follows, and the segment goes on behind it.
          cases u with
          | nil => exact h
          | cons d u =>
            obtain ⟨⟨m, e'⟩, -, he⟩ := Option.map_eq_some_iff.mp h
            obtain ⟨rfl, rfl⟩ : m + 2 = n ∧ e' = e := by simpa using he
            rw [List.length_singleton] at hle
            omega
        | cons d t => exact hrest (k := 2) (by decide) rfl h
      · rw [segmentEnd?_cons hc]
        by_cases hq : c = q.char
        · rw [if_pos hq]
          rwa [List.cons_append, segmentEnd?_cons hc, if_pos hq] at h
        · have hopening := opening_append_iff hc hq h hle
          rw [List.cons_append, segmentEnd?_cons hc, if_neg hq] at h
          rw [if_neg hq]
          by_cases hopen : c = '#' ∧ t.head? = some '{' ∧ t.tail.head? ≠ some q.char
          · rw [if_pos hopen]
            rwa [if_pos (hopening.mpr hopen)] at h
          · rw [if_neg hopen]
            rw [if_neg fun hfull => hopen (hopening.mp hfull)] at h
            exact hrest (k := 1) (by decide) rfl h

namespace Lexeme

/-- How far a rule has to look to find a token. -/
def reach (x : Lexeme) : Nat :=
  x.length + if x.opens.isSome then 2 else 0

/-- What a rule finds within a text does not depend on what follows the text. -/
structure Settled (rule : Text → Option Lexeme) (t u : Text) : Prop where
  within : ∀ {x : Lexeme}, rule (t ++ u) = some x → x.reach ≤ t.length → rule t = some x
  missing : rule (t ++ u) = none → rule t = none

variable {t u : Text} {x : Lexeme}

theorem Settled.orElse {first second : Text → Option Lexeme} (h : Settled first t u)
    (h' : Settled second t u) : Settled (fun t => first t <|> second t) t u where
  within := by
    intro x hx hle
    rcases orElse_eq_some_iff.mp hx with hx | ⟨hnone, hx⟩
    · exact orElse_eq_some_iff.mpr (.inl (h.within hx hle))
    · exact orElse_eq_some_iff.mpr (.inr ⟨h.missing hnone, h'.within hx hle⟩)
  missing := by
    intro hnone
    obtain ⟨hfirst, hsecond⟩ := Option.or_eq_none_iff.mp (by simpa using hnone)
    simp [h.missing hfirst, h'.missing hsecond]

/-- A rule that keeps what a form takes as text. -/
theorem settled_of_form {form : Recognizer} (hform : form.Stable) {rule : Text → Option Lexeme}
    {k : Text → TokenKind}
    (hrule : ∀ t, rule t = (form t).map fun n => { kind := k (t.take n), length := n }) :
    Settled rule t u where
  within := by
    intro x hx hle
    rw [hrule] at hx ⊢
    obtain ⟨n, hn, rfl⟩ := Option.map_eq_some_iff.mp hx
    replace hle : n ≤ t.length := hle
    rw [hform.within hn hle, List.take_append_of_le_length hle]
    rfl
  missing := by
    intro hnone
    rw [hrule] at hnone ⊢
    rw [hform.eq_none (Option.map_eq_none_iff.mp hnone)]
    rfl

theorem settled_segment (q : Quote) : Settled (segment? q) t u where
  within := by
    intro x hx hle
    unfold segment? at hx ⊢
    cases hend : segmentEnd? q (t ++ u) with
    | none =>
      rw [hend] at hx
      cases hx
    | some r =>
      obtain ⟨n, e⟩ := r
      rw [hend] at hx
      have hreach : n + e.length = x.reach := by cases e <;> (cases hx; rfl)
      have htake : (t ++ u).take n = t.take n := List.take_append_of_le_length (by omega)
      rw [segmentEnd?_within hend (by omega)]
      cases e with
      | closed =>
        simp only [htake] at hx
        exact hx
      | interpolated =>
        simp only [htake] at hx
        exact hx
  missing := by
    intro hnone
    have hend : segmentEnd? q (t ++ u) = none := by
      cases hend : segmentEnd? q (t ++ u) with
      | none => rfl
      | some r =>
        obtain ⟨n, e⟩ := r
        rw [segment?, hend] at hnone
        cases e <;> cases hnone
    cases hshort : segmentEnd? q t with
    | none => rw [segment?, hshort]
    | some r =>
      obtain ⟨r', hr'⟩ := segmentEnd?_beyond u hshort
      rw [hend] at hr'
      cases hr'

theorem settled_string (q : Quote) : Settled (string? q) t u where
  within := by
    intro x hx hle
    cases t with
    | nil =>
      obtain ⟨-, hpos, -⟩ := string?_eq_some hx
      have hlength : x.length ≤ x.reach := Nat.le_add_right _ _
      rw [List.length_nil] at hle
      omega
    | cons c t =>
      rw [List.cons_append, string?] at hx
      rw [string?]
      split at hx
      · next hc =>
        obtain ⟨y, hy, rfl⟩ := Option.map_eq_some_iff.mp hx
        have hreach : y.reach ≤ t.length := by
          replace hle : y.length + 1 + (if y.opens.isSome then 2 else 0) ≤ t.length + 1 := hle
          unfold reach
          omega
        rw [if_pos hc, (settled_segment q).within hy hreach]
        rfl
      · cases hx
  missing := by
    intro hnone
    cases t with
    | nil => rfl
    | cons c t =>
      rw [List.cons_append, string?] at hnone
      rw [string?]
      split
      · next hc =>
        rw [if_pos hc] at hnone
        rw [(settled_segment q).missing (Option.map_eq_none_iff.mp hnone)]
        rfl
      · rfl

theorem settled_ident : Settled ident? t u :=
  settled_of_form (k := fun v => .ident (Text.unescape v)) Recognizer.stable_identifier fun _ => rfl

theorem settled_uri : Settled (span? Recognizer.uri .uri) t u :=
  settled_of_form Recognizer.stable_uri fun _ => rfl

theorem settled_unicodeRange : Settled (span? Recognizer.unicodeRange .unicodeRange) t u :=
  settled_of_form Recognizer.stable_unicodeRange fun _ => rfl

theorem settled_symbol (inside : Bool) : Settled (symbol? inside) t u where
  within := by
    intro x hx hle
    obtain ⟨o, ho, rfl⟩ := Option.map_eq_some_iff.mp hx
    replace hle : o.text.length ≤ t.length := hle
    rw [← String.length_toList] at hle
    have hfound : Op.symbols.find? (fun op => op.text.toList.isPrefixOf t) = some o := by
      obtain ⟨hfront, before, after, hsplit, hnone⟩ := List.find?_eq_some_iff_append.mp ho
      refine List.find?_eq_some_iff_append.mpr ⟨?_, before, after, hsplit, fun o' ho' => ?_⟩
      · exact List.isPrefixOf_iff_prefix.mpr (List.prefix_of_prefix_length_le
          (List.isPrefixOf_iff_prefix.mp hfront) (List.prefix_append t u) hle)
      · have hno := hnone o' ho'
        simp only [Bool.not_eq_true', Bool.eq_false_iff, ne_eq, List.isPrefixOf_iff_prefix] at hno ⊢
        exact fun hfront' => hno (hfront'.trans (List.prefix_append t u))
    rw [symbol?, hfound]
    rfl
  missing := by
    intro hnone
    have hno := List.find?_eq_none.mp (Option.map_eq_none_iff.mp hnone)
    rw [symbol?, List.find?_eq_none.mpr fun o ho hfront => ?_]
    · rfl
    · refine hno o ho (List.isPrefixOf_iff_prefix.mpr ?_)
      exact (List.isPrefixOf_iff_prefix.mp hfront).trans (List.prefix_append t u)

/-! ### Numbers -/

/-- The digits behind a decimal point. -/
def fraction (digits : Text) : Text :=
  match digits.dropWhile isDecimalDigit with
  | '.' :: t => t.takeWhile isDecimalDigit
  | _ => []

/-- How many characters of a number are digits, the point included. -/
def numberSize (digits : Text) : Nat :=
  (digits.takeWhile isDecimalDigit).length +
    if (fraction digits).isEmpty then 0 else (fraction digits).length + 1

/-- The unit behind a number. -/
def unit (digits : Text) : Text :=
  (digits.drop (numberSize digits)).takeWhile fun c => c.isAlpha || c == '%'

/-- A number behind its sign. -/
def unsigned? (negative : Bool) (digits : Text) : Option Lexeme :=
  if (digits.takeWhile isDecimalDigit).isEmpty && (fraction digits).isEmpty then none
  else some {
    kind := .number (.ofDecimal negative (digits.takeWhile isDecimalDigit) (fraction digits))
      (if (unit digits).isEmpty then none else some (unit digits))
    length := (if negative then 1 else 0) + numberSize digits + (unit digits).length }

theorem number?_eq (t : Text) :
    number? t = if t.head? = some '-' then unsigned? true (t.drop 1) else unsigned? false t := by
  unfold number? unsigned?
  by_cases h : t.head? = some '-'
  · simp only [h, if_true, decide_true]
    rfl
  · simp only [h, if_false, decide_false]
    rfl

theorem fraction_of_point {digits r : Text} (h : digits.dropWhile isDecimalDigit = '.' :: r) :
    fraction digits = r.takeWhile isDecimalDigit := by
  simp only [fraction, h]

theorem fraction_of_no_point {digits : Text} (h : ∀ r, digits.dropWhile isDecimalDigit ≠ '.' :: r) :
    fraction digits = [] := by
  unfold fraction
  split
  · next r heq => exact absurd heq (h r)
  · rfl

/-- The digits of a number that lies within a text. -/
theorem digits_append (h : numberSize (t ++ u) ≤ t.length) :
    (t ++ u).takeWhile isDecimalDigit = t.takeWhile isDecimalDigit ∧
    fraction (t ++ u) = fraction t := by
  have hwhole : (t ++ u).takeWhile isDecimalDigit = t.takeWhile isDecimalDigit :=
    Text.takeWhile_append_of_le (Nat.le_trans (Nat.le_add_right _ _) h)
  refine ⟨hwhole, ?_⟩
  have hsplit :=
    congrArg List.length (List.takeWhile_append_dropWhile (p := isDecimalDigit) (l := t))
  rw [List.length_append] at hsplit
  rw [numberSize, hwhole] at h
  cases hrest : t.dropWhile isDecimalDigit with
  | nil =>
    -- The text ends in its digits, and no digits behind a point are within it.
    have hnone : fraction t = [] := fraction_of_no_point fun r hr => by rw [hrest] at hr; cases hr
    rw [hrest, List.length_nil] at hsplit
    rw [hnone]
    refine List.isEmpty_iff.mp (Decidable.byContradiction fun hsome => ?_)
    rw [if_neg hsome] at h
    omega
  | cons d r =>
    have hbehind : (t ++ u).dropWhile isDecimalDigit = d :: (r ++ u) := by
      rw [List.dropWhile_append, hrest]
      rfl
    rw [hrest, List.length_cons] at hsplit
    by_cases hpoint : d = '.'
    · subst hpoint
      have hfull := fraction_of_point hbehind
      have hle : ((r ++ u).takeWhile isDecimalDigit).length ≤ r.length := by
        rw [hfull] at h
        split at h
        · next hempty =>
          rw [List.isEmpty_iff.mp hempty]
          exact Nat.zero_le _
        · omega
      rw [hfull, fraction_of_point hrest, Text.takeWhile_append_of_le hle]
    · rw [fraction_of_no_point fun v hv => ?_, fraction_of_no_point fun v hv => ?_]
      · rw [hrest] at hv
        exact hpoint (List.cons.inj hv).1
      · rw [hbehind] at hv
        exact hpoint (List.cons.inj hv).1

theorem unsigned?_within {negative : Bool} {k : Nat} (hk : k = if negative then 1 else 0)
    (hx : unsigned? negative (t ++ u) = some x) (hle : x.length ≤ t.length + k) :
    unsigned? negative t = some x := by
  unfold unsigned? at hx
  split at hx
  · cases hx
  · next hsome =>
    cases hx
    replace hle : (if negative then 1 else 0) + numberSize (t ++ u) + (unit (t ++ u)).length ≤
      t.length + k := hle
    rw [← hk] at hle
    obtain ⟨hwhole, hfraction⟩ := digits_append (t := t) (u := u) (by omega)
    have hsize : numberSize (t ++ u) = numberSize t := by
      rw [numberSize, numberSize, hwhole, hfraction]
    have hunit : unit (t ++ u) = unit t := by
      have hdrop : (t ++ u).drop (numberSize t) = t.drop (numberSize t) ++ u :=
        List.drop_append_of_le_length (by omega)
      have hlength : (t.drop (numberSize t)).length = t.length - numberSize t := List.length_drop
      have hfits : (unit (t ++ u)).length ≤ (t.drop (numberSize t)).length := by omega
      unfold unit at hfits ⊢
      rw [hsize, hdrop] at hfits ⊢
      exact Text.takeWhile_append_of_le hfits
    rw [hwhole, hfraction] at hsome
    unfold unsigned?
    rw [if_neg hsome, hwhole, hfraction, hunit, hsize]

theorem unsigned?_missing {negative : Bool} (h : unsigned? negative (t ++ u) = none) :
    unsigned? negative t = none := by
  have hnone : (t ++ u).takeWhile isDecimalDigit = [] ∧ fraction (t ++ u) = [] := by
    unfold unsigned? at h
    split at h
    · next hempty => simpa using hempty
    · cases h
  obtain ⟨hwhole, hfraction⟩ := hnone
  have hnil : t.takeWhile isDecimalDigit = [] := by
    have hle := Text.length_takeWhile_le_append isDecimalDigit t u
    rw [hwhole] at hle
    exact List.length_eq_zero_iff.mp (Nat.le_zero.mp hle)
  have hfront : t.dropWhile isDecimalDigit = t := by
    have hsplit := List.takeWhile_append_dropWhile (p := isDecimalDigit) (l := t)
    rwa [hnil, List.nil_append] at hsplit
  have hempty : fraction t = [] := by
    by_cases hpoint : ∃ r, t = '.' :: r
    · obtain ⟨r, rfl⟩ := hpoint
      rw [fraction_of_point
        (show ('.' :: r ++ u).dropWhile isDecimalDigit = '.' :: (r ++ u) from rfl)]
        at hfraction
      have hr := Text.length_takeWhile_le_append isDecimalDigit r u
      rw [hfraction] at hr
      rw [fraction_of_point hfront]
      exact List.length_eq_zero_iff.mp (Nat.le_zero.mp hr)
    · refine fraction_of_no_point fun r hr => hpoint ⟨r, ?_⟩
      rwa [hfront] at hr
  unfold unsigned?
  rw [hnil, hempty]
  rfl

theorem settled_number : Settled number? t u where
  within := by
    intro x hx hle
    replace hle : x.length ≤ t.length := Nat.le_trans (Nat.le_add_right _ _) hle
    cases t with
    | nil =>
      obtain ⟨⟨hpos, -⟩, -⟩ := number?_eq_some hx
      rw [List.length_nil] at hle
      omega
    | cons c t =>
      rw [number?_eq] at hx ⊢
      split at hx
      · next hsign =>
        rw [if_pos (show (c :: t).head? = some '-' from hsign)]
        exact unsigned?_within (k := 1) rfl hx hle
      · next hsign =>
        rw [if_neg (show ¬ (c :: t).head? = some '-' from hsign)]
        exact unsigned?_within (k := 0) rfl hx hle
  missing := by
    intro hnone
    cases t with
    | nil => rfl
    | cons c t =>
      rw [number?_eq] at hnone ⊢
      split at hnone
      · next hsign =>
        rw [if_pos (show (c :: t).head? = some '-' from hsign)]
        exact unsigned?_missing hnone
      · next hsign =>
        rw [if_neg (show ¬ (c :: t).head? = some '-' from hsign)]
        exact unsigned?_missing hnone

/-! ### Rules that look behind the token -/

/-- Nothing of a class stands behind some characters if nothing does where the text goes on. -/
theorem any_head?_drop {p : Char → Bool} {n : Nat} (hle : n ≤ t.length)
    (h : ((t ++ u).drop n).head?.any p = false) : (t.drop n).head?.any p = false := by
  rw [List.drop_append_of_le_length hle] at h
  cases hrest : t.drop n with
  | nil => rfl
  | cons d v =>
    rw [hrest] at h
    exact h

theorem notBefore_eq_some {form : Recognizer} {p : Char → Bool} {t : Text} {n : Nat} :
    form.notBefore p t = some n ↔ form t = some n ∧ (t.drop n).head?.any p = false := by
  constructor
  · intro h
    obtain ⟨k, hk, hend⟩ := Option.bind_eq_some_iff.mp h
    split at hend
    · cases hend
    · next hbehind =>
      cases hend
      exact ⟨hk, Bool.eq_false_iff.mpr hbehind⟩
  · rintro ⟨hn, hbehind⟩
    exact Option.bind_eq_some_iff.mpr ⟨n, hn, if_neg (Bool.eq_false_iff.mp hbehind)⟩

theorem notBefore_within {form : Recognizer} (hform : form.Stable) {p : Char → Bool} {n : Nat}
    (h : form.notBefore p (t ++ u) = some n) (hle : n ≤ t.length) :
    form.notBefore p t = some n := by
  obtain ⟨hn, hbehind⟩ := notBefore_eq_some.mp h
  exact notBefore_eq_some.mpr ⟨hform.within hn hle, any_head?_drop hle hbehind⟩

theorem reference?_within (hx : reference? (t ++ u) = some x) (hle : x.length ≤ t.length) :
    reference? t = some x := by
  cases t with
  | nil =>
    obtain ⟨⟨hpos, -⟩, -⟩ := reference?_eq_some hx
    rw [List.length_nil] at hle
    omega
  | cons c t =>
    rw [List.cons_append, reference?] at hx
    rw [reference?]
    split at hx
    · next hc =>
      rw [if_pos hc]
      cases hname : Recognizer.identifier (t ++ u) with
      | some n =>
        rw [hname] at hx
        cases hx
        have hn : n ≤ t.length := Nat.le_of_succ_le_succ hle
        rw [Recognizer.stable_identifier.within hname hn, List.take_append_of_le_length hn]
      | none =>
        rw [hname] at hx
        rw [Recognizer.stable_identifier.eq_none hname]
        simp only at hx ⊢
        split at hx
        · next hbang =>
          rw [if_pos hbang]
          obtain ⟨n, hn, hrest⟩ := Option.bind_eq_some_iff.mp hx
          obtain ⟨m, hm, hx⟩ := Option.bind_eq_some_iff.mp hrest
          cases hx
          replace hle : n + m + 1 ≤ t.length + 1 := hle
          have hdrop : (t ++ u).drop n = t.drop n ++ u := List.drop_append_of_le_length (by omega)
          have hlength : (t.drop n).length = t.length - n := List.length_drop
          rw [hdrop] at hm
          have hm' := notBefore_within (Recognizer.stable_caseless _) hm (by omega)
          have hn' := (Recognizer.stable_run₁ isBlank).within hn (by omega)
          refine Option.bind_eq_some_iff.mpr ⟨n, hn', Option.bind_eq_some_iff.mpr ⟨m, hm', ?_⟩⟩
          rw [hdrop, List.take_append_of_le_length (by omega)]
          rfl
        · cases hx
    · cases hx

/-- How many digits a color takes. -/
def colorDigits? (t : Text) : Option Nat :=
  if 6 ≤ (t.takeWhile isHexDigit).length then some 6
  else if 3 ≤ (t.takeWhile isHexDigit).length then some 3
  else none

theorem color?_eq (t : Text) :
    color? ('#' :: t) = (colorDigits? t).bind fun n => (Color.ofHex? (t.take n)).bind fun color =>
      if (t.drop n).head?.any isNameChar then none
      else some { kind := .color color, length := n + 1 } := by
  unfold color? colorDigits?
  by_cases hsix : 6 ≤ (t.takeWhile isHexDigit).length
  · simp only [if_pos hsix]
    rfl
  · by_cases hthree : 3 ≤ (t.takeWhile isHexDigit).length
    · simp only [if_neg hsix, if_pos hthree]
      rfl
    · simp only [if_neg hsix, if_neg hthree]
      rfl

theorem colorDigits?_within {n : Nat} (h : colorDigits? (t ++ u) = some n) (hle : n ≤ t.length) :
    colorDigits? t = some n := by
  have hmono := Text.length_takeWhile_le_append isHexDigit t u
  -- The digits of the text go as far as those of the longer text, or to the end of the text.
  have hfar : ((t ++ u).takeWhile isHexDigit).length ≤ (t.takeWhile isHexDigit).length ∨
      (t.takeWhile isHexDigit).length = t.length := by
    rcases Nat.lt_or_ge (t.takeWhile isHexDigit).length t.length with hlt | hge
    · rw [Text.takeWhile_append_of_lt hlt]
      exact .inl (Nat.le_refl _)
    · exact .inr (Nat.le_antisymm (List.takeWhile_prefix isHexDigit).length_le hge)
  unfold colorDigits? at h ⊢
  split at h
  · cases h
    rw [if_pos (by omega)]
  · split at h
    · cases h
      rw [if_neg (by omega), if_pos (by omega)]
    · cases h

theorem color?_within (hx : color? (t ++ u) = some x) (hle : x.length ≤ t.length) :
    color? t = some x := by
  cases t with
  | nil =>
    obtain ⟨⟨hpos, -⟩, -⟩ := color?_eq_some hx
    rw [List.length_nil] at hle
    omega
  | cons c t =>
    obtain rfl : c = '#' := by
      unfold color? at hx
      split at hx
      · next heq => exact (List.cons.inj heq).1
      · cases hx
    rw [List.cons_append, color?_eq] at hx
    obtain ⟨n, hn, hrest⟩ := Option.bind_eq_some_iff.mp hx
    obtain ⟨color, hcolor, hx⟩ := Option.bind_eq_some_iff.mp hrest
    split at hx
    · cases hx
    · next hbehind =>
      cases hx
      have hle' : n ≤ t.length := Nat.le_of_succ_le_succ hle
      have hbehind' := any_head?_drop hle' (Bool.eq_false_iff.mpr hbehind)
      rw [List.take_append_of_le_length hle'] at hcolor
      rw [color?_eq, colorDigits?_within hn hle']
      simp only [Option.bind_some, hcolor, hbehind', Bool.false_eq_true, if_false]

theorem word?_within {word : String} {kind : TokenKind} (hx : word? word kind (t ++ u) = some x)
    (hle : x.length ≤ t.length) : word? word kind t = some x := by
  obtain ⟨n, hn, rfl⟩ := Option.map_eq_some_iff.mp hx
  rw [word?, notBefore_within (Recognizer.stable_literal _) hn hle]
  rfl

/-! ### Where such a rule fails

Behind the text something may stand that keeps such a rule from fitting, while it fits where the
text is cut off.  But then the token that is found goes on with it, and is not within the text. -/

/-- The words that nothing may continue. -/
def words : List String :=
  ["true", "false", "and", "or", "not"]

theorem orElse_none (a : Option Lexeme) : (a <|> none) = a := by
  cases a <;> rfl

theorem at?_hash (inside : Bool) (t : Text) :
    at? inside ('#' :: t) = (color? ('#' :: t)).or (symbol? inside ('#' :: t)) := by
  have hleading : leading? ('#' :: t) = color? ('#' :: t) := orElse_none (color? ('#' :: t))
  rw [at?, hleading]
  rfl

theorem at?_bang (inside : Bool) (t : Text) :
    at? inside ('!' :: t) = (reference? ('!' :: t)).or (symbol? inside ('!' :: t)) := by
  have hleading : leading? ('!' :: t) = reference? ('!' :: t) := orElse_none (reference? ('!' :: t))
  rw [at?, hleading]
  rfl

/-- Only words are tried at a word. -/
theorem at?_word {w : String} (hw : w ∈ words) (inside : Bool) (t : Text) :
    at? inside (w.toList ++ t) = (bool? (w.toList ++ t)).or
      ((wordOp? (w.toList ++ t)).or
        ((ident? (w.toList ++ t)).or (symbol? inside (w.toList ++ t)))) := by
  have hrules : leading? (w.toList ++ t) = bool? (w.toList ++ t) ∧
      Recognizer.specialHead (w.toList ++ t) = none := by
    have hbool := orElse_none (bool? (w.toList ++ t))
    simp only [words, List.mem_cons, List.not_mem_nil, or_false] at hw
    rcases hw with rfl | rfl | rfl | rfl | rfl <;> exact ⟨hbool, rfl⟩
  rw [at?, hrules.1, hrules.2, trailing?]
  cases wordOp? (w.toList ++ t) <;> cases ident? (w.toList ++ t) <;> rfl

/-- A symbol that begins with a certain character and is not that character alone. -/
theorem text_of_symbol {inside : Bool} {c d e : Char} {v : Text}
    (hx : symbol? inside (c :: d :: v) = some x)
    (hsymbols : ∀ o ∈ Op.symbols,
      o.text.toList.head? = some c → o.text.toList = [c, e]) : d = e := by
  obtain ⟨-, o, ho, hfront, -⟩ := symbol?_eq_some hx
  have hhead : o.text.toList.head? = some c := by
    cases htext : o.text.toList with
    | nil => exact absurd htext o.text_ne_nil
    | cons b w =>
      rw [htext] at hfront
      obtain ⟨rfl, -⟩ := List.cons_prefix_cons.mp hfront
      rfl
  rw [hsymbols o ho hhead] at hfront
  obtain ⟨-, hfront⟩ := List.cons_prefix_cons.mp hfront
  exact (List.cons_prefix_cons.mp hfront).1.symm

theorem hash_of_color? (h : color? t = some x) : ∃ v, t = '#' :: v := by
  unfold color? at h
  split at h
  · exact ⟨_, rfl⟩
  · cases h

/-- Digits of a color are no opening of an interpolation, so without a color nothing is found. -/
theorem color?_missing {inside : Bool} (hx : at? inside (t ++ u) = some x)
    (h : color? (t ++ u) = none) : color? t = none := by
  refine Option.eq_none_iff_forall_ne_some.mpr fun y hy => ?_
  obtain ⟨v, rfl⟩ := hash_of_color? hy
  rw [color?_eq] at hy
  obtain ⟨n, hn, -⟩ := Option.bind_eq_some_iff.mp hy
  cases v with
  | nil => cases hn
  | cons d v =>
    have hd : isHexDigit d = true := by
      refine Decidable.byContradiction fun hd => ?_
      rw [colorDigits?, List.takeWhile_cons_of_neg hd] at hn
      cases hn
    rw [List.cons_append, at?_hash, ← List.cons_append, h] at hx
    obtain rfl : d = '{' := text_of_symbol hx (by decide)
    exact absurd hd (by decide)

/-- A flag behind white space is no operator, so without the flag nothing is found. -/
theorem reference?_missing {inside : Bool} (hx : at? inside (t ++ u) = some x)
    (h : reference? (t ++ u) = none) : reference? t = none := by
  cases t with
  | nil => rfl
  | cons c t =>
    rw [List.cons_append, reference?] at h
    rw [reference?]
    split at h
    · next hc =>
      rw [if_pos hc]
      cases hname : Recognizer.identifier (t ++ u) with
      | some n =>
        rw [hname] at h
        cases h
      | none =>
        rw [hname] at h
        rw [Recognizer.stable_identifier.eq_none hname]
        simp only at h ⊢
        split at h
        · next hbang =>
          subst hbang
          rw [if_pos rfl]
          refine Option.eq_none_iff_forall_ne_some.mpr fun y hy => ?_
          obtain ⟨n, hn, -⟩ := Option.bind_eq_some_iff.mp hy
          cases t with
          | nil => cases hn
          | cons d t =>
            have hd : isBlank d = true := by
              refine Decidable.byContradiction fun hd => ?_
              rw [Recognizer.blanks, Recognizer.run₁, if_neg hd] at hn
              cases hn
            have hnone : reference? ('!' :: (d :: t ++ u)) = none := by
              rw [reference?, if_pos hc, hname]
              exact h
            rw [List.cons_append, at?_bang, hnone] at hx
            obtain rfl : d = '=' := text_of_symbol hx (by decide)
            exact absurd hd (by decide)
        · next hbang => rw [if_neg hbang]
    · next hc => rw [if_neg hc]

theorem identifier_of_word {d : Char} {w : Text} (hd : isNameStart d = true)
    (hw : ∀ c ∈ w, isNameBody c = true) (v : Text) :
    Recognizer.identifier (d :: (w ++ v)) = some (w.length + Text.nameLength v + 1) := by
  have hname : Text.nameLength (w ++ v) = w.length + Text.nameLength v := by
    induction w with
    | nil => rw [List.nil_append, List.length_nil, Nat.zero_add]
    | cons c w ih =>
      rw [List.cons_append, Text.nameLength_of_body (hw c List.mem_cons_self),
        ih fun c hc => hw c (List.mem_cons_of_mem _ hc), List.length_cons]
      omega
  rw [Recognizer.identifier,
    Recognizer.bareIdentifier_eq_some.mpr (.inr ⟨d, w ++ v, rfl, hd, rfl⟩), hname]
  rintro _ hhyphen
  obtain ⟨rfl, -⟩ := List.cons.inj hhyphen
  exact absurd hd (by decide)

theorem word?_of_bool? {t : Text} (h : bool? t = some x) :
    ∃ w ∈ words, ∃ kind, word? w kind t = some x := by
  rcases orElse_eq_some_iff.mp h with h | ⟨_, h⟩
  · exact ⟨"true", by decide, _, h⟩
  · exact ⟨"false", by decide, _, h⟩

theorem word?_of_wordOp? {t : Text} (h : wordOp? t = some x) :
    ∃ w ∈ words, ∃ kind, word? w kind t = some x := by
  rcases orElse_eq_some_iff.mp h with h | ⟨_, h⟩
  · exact ⟨"and", by decide, _, h⟩
  · rcases orElse_eq_some_iff.mp h with h | ⟨_, h⟩
    · exact ⟨"or", by decide, _, h⟩
    · exact ⟨"not", by decide, _, h⟩

/-- What is found where a name character goes on with a word is longer than the word. -/
theorem length_of_word {w : String} (hw : w ∈ words) {inside : Bool} {c : Char} {v : Text}
    (hc : isNameBody c = true) (hx : at? inside (w.toList ++ c :: v) = some x) :
    w.toList.length < x.length := by
  -- No word begins with another one, so a word found here is the same, and something goes on with
  -- it.
  have hlonger : (∃ w' ∈ words, ∃ kind, word? w' kind (w.toList ++ c :: v) = some x) →
      w.toList.length < x.length := by
    rintro ⟨w', hw', kind, hfound⟩
    obtain ⟨n, hn, rfl⟩ := Option.map_eq_some_iff.mp hfound
    obtain ⟨hliteral, hbehind⟩ := notBefore_eq_some.mp hn
    obtain ⟨hfront, hlength⟩ := Recognizer.literal_eq_some.mp hliteral
    subst hlength
    refine Nat.lt_of_not_le fun hle => ?_
    have hapart : ∀ w ∈ words, ∀ w' ∈ words, w'.toList <+: w.toList → w' = w := by decide
    obtain rfl := hapart w hw w' hw'
      (List.prefix_of_prefix_length_le hfront (List.prefix_append _ _) hle)
    rw [List.drop_left, List.head?_cons, Option.any_some, isNameChar, hc] at hbehind
    cases hbehind
  rw [at?_word hw] at hx
  rcases Option.or_eq_some_iff.mp hx with hx | ⟨-, hx⟩
  · exact hlonger (word?_of_bool? hx)
  rcases Option.or_eq_some_iff.mp hx with hx | ⟨-, hx⟩
  · exact hlonger (word?_of_wordOp? hx)
  obtain ⟨d, r, hdr, hd, hr⟩ : ∃ d r, w.toList = d :: r ∧ isNameStart d = true ∧
      r.all isNameBody = true := by
    have hnames : ∀ w ∈ words, ∃ d r, w.toList = d :: r ∧ isNameStart d = true ∧
        r.all isNameBody = true := by
      simp only [words, List.forall_mem_cons, List.not_mem_nil, false_implies,
        implies_true, and_true]
      exact ⟨⟨'t', ['r', 'u', 'e'], rfl, rfl, rfl⟩, ⟨'f', ['a', 'l', 's', 'e'], rfl, rfl, rfl⟩,
        ⟨'a', ['n', 'd'], rfl, rfl, rfl⟩, ⟨'o', ['r'], rfl, rfl, rfl⟩,
        ⟨'n', ['o', 't'], rfl, rfl, rfl⟩⟩
    exact hnames w hw
  rw [hdr, List.cons_append, ident?, identifier_of_word hd (List.all_eq_true.mp hr)] at hx
  cases hx
  show w.toList.length < r.length + Text.nameLength (c :: v) + 1
  rw [hdr, List.length_cons, Text.nameLength_of_body hc]
  omega

/-- Nothing that keeps a word from being one goes on with it but a backslash. -/
theorem word?_missing {inside : Bool} (hx : at? inside (t ++ u) = some x)
    (hle : x.length ≤ t.length) (hu : u.head? ≠ some '\\') {w : String} (hw : w ∈ words)
    {kind : TokenKind} (h : word? w kind (t ++ u) = none) : word? w kind t = none := by
  refine Option.eq_none_iff_forall_ne_some.mpr fun y hy => ?_
  obtain ⟨n, hn, -⟩ := Option.map_eq_some_iff.mp hy
  obtain ⟨hfront, hbehind⟩ := notBefore_eq_some.mp hn
  have hfront' := Recognizer.fixed_literal _ u hfront
  obtain ⟨⟨v, rfl⟩, rfl⟩ := Recognizer.literal_eq_some.mp hfront
  rw [List.drop_left] at hbehind
  have hany : (v ++ u).head?.any isNameChar = true := by
    refine Decidable.byContradiction fun hany => ?_
    have hfound := notBefore_eq_some.mpr ⟨hfront', by
      rw [List.append_assoc, List.drop_left]
      exact Bool.eq_false_iff.mpr hany⟩
    rw [word?, hfound] at h
    cases h
  cases v with
  | cons d v => exact absurd (hbehind.symm.trans hany) Bool.false_ne_true
  | nil =>
    cases u with
    | nil => cases hany
    | cons c u =>
      have hc : isNameBody c = true := by
        rcases Bool.or_eq_true_iff.mp hany with hc | hc
        · exact hc
        · exact absurd (congrArg some (by simpa using hc)) hu
      rw [List.append_nil] at hx hle
      exact absurd (length_of_word hw hc hx) (Nat.not_lt.mpr hle)

/-! ### All rules -/

/-- Of the rules that come before special functions, these three look at what follows. -/
theorem Settled.leading (hreference : Settled reference? t u) (hcolor : Settled color? t u)
    (hbool : Settled bool? t u) : Settled leading? t u :=
  hreference.orElse <| (settled_string _).orElse <| (settled_string _).orElse <|
    settled_number.orElse <| hcolor.orElse <| hbool.orElse <|
    settled_uri.orElse settled_unicodeRange

section
variable {inside : Bool} (hx : at? inside (t ++ u) = some x) (hle : x.reach ≤ t.length)
  (hu : u.head? ≠ some '\\')
include hx hle hu

theorem settled_word {w : String} (hw : w ∈ words) (kind : TokenKind) :
    Settled (word? w kind) t u where
  within := fun hy hle => word?_within hy (Nat.le_trans (Nat.le_add_right _ _) hle)
  missing := word?_missing hx (Nat.le_trans (Nat.le_add_right _ _) hle) hu hw

theorem settled_bool : Settled bool? t u :=
  (settled_word hx hle hu (by decide) _).orElse (settled_word hx hle hu (by decide) _)

theorem settled_wordOp : Settled wordOp? t u :=
  (settled_word hx hle hu (by decide) _).orElse
    ((settled_word hx hle hu (by decide) _).orElse (settled_word hx hle hu (by decide) _))

theorem settled_leading : Settled leading? t u := by
  have hreference : Settled reference? t u :=
    ⟨fun hy hle => reference?_within hy (Nat.le_trans (Nat.le_add_right _ _) hle),
      reference?_missing hx⟩
  have hcolor : Settled color? t u :=
    ⟨fun hy hle => color?_within hy (Nat.le_trans (Nat.le_add_right _ _) hle), color?_missing hx⟩
  exact hreference.leading hcolor (settled_bool hx hle hu)

theorem settled_trailing : Settled (trailing? inside) t u :=
  (settled_wordOp hx hle hu).orElse <| settled_ident.orElse <| settled_symbol inside

/-- **A token within a text does not depend on what follows the text.** -/
theorem at?_append : at? inside t = some x := by
  have hleading := settled_leading hx hle hu
  have htrailing := settled_trailing hx hle hu
  rcases Option.or_eq_some_iff.mp hx with hfound | ⟨hnone, hfound⟩
  · exact Option.or_eq_some_iff.mpr (.inl (hleading.within hfound hle))
  · refine Option.or_eq_some_iff.mpr (.inr ⟨hleading.missing hnone, ?_⟩)
    split at hfound
    · cases hfound
    · next hspecial =>
      have hnone : Recognizer.specialHead (t ++ u) = none := by simpa using hspecial
      rw [Recognizer.stable_specialHead.eq_none hnone]
      exact htrailing.within hfound hle

end

/-! ### Special functions -/

/-- A special function begins with a hyphen or a letter. -/
theorem head?_of_specialHead {n : Nat} (h : Recognizer.specialHead t = some n) :
    ∃ c v, t = c :: v ∧ foldCase c ∈ ['-', 'c', 'e', 'p'] := by
  have hhead : ∃ d ∈ ['-', 'c', 'e', 'p'], t.head?.map foldCase = some d := by
    obtain ⟨k, hk, -⟩ := Recognizer.andThen_eq_some.mp h
    rcases Recognizer.orElse_eq_some.mp hk with hk | ⟨-, hk⟩
    · rcases Recognizer.specialHead.head?_of_calculation hk with hc | hc
      · exact ⟨'-', by decide, hc⟩
      · exact ⟨'c', by decide, hc⟩
    · rcases Recognizer.orElse_eq_some.mp hk with hk | ⟨-, hk⟩
      · exact ⟨'e', by decide, Recognizer.specialHead.head?_of_caseless hk⟩
      · obtain ⟨m, hm, -⟩ := Recognizer.andThen_eq_some.mp hk
        exact ⟨'p', by decide, Recognizer.specialHead.head?_of_caseless hm⟩
  obtain ⟨d, hd, hmap⟩ := hhead
  obtain ⟨c, hc, rfl⟩ := Option.map_eq_some_iff.mp hmap
  obtain ⟨v, rfl⟩ := List.head?_eq_some_iff.mp hc
  exact ⟨c, v, rfl, hd⟩

theorem settled_of_none {rule : Text → Option Lexeme} {c : Char} (h : ∀ t, rule (c :: t) = none) :
    Settled rule (c :: t) u where
  within := fun hx => absurd ((h (t ++ u)).symm.trans hx) nofun
  missing := fun _ => h t

/-- **The beginning of a special function does not depend on what follows the text.** -/
theorem specialHead_append {n : Nat} (hnone : leading? (t ++ u) = none)
    (hhead : Recognizer.specialHead (t ++ u) = some n) (hle : n ≤ t.length) :
    leading? t = none ∧ Recognizer.specialHead t = some n := by
  have hshort := Recognizer.stable_specialHead.within hhead hle
  refine ⟨?_, hshort⟩
  obtain ⟨c, v, rfl, hc⟩ := head?_of_specialHead hshort
  have hother : ∀ d, foldCase d ∉ ['-', 'c', 'e', 'p'] → c ≠ d := by
    rintro d hd rfl
    exact hd hc
  have hreference : ∀ v, reference? (c :: v) = none := by
    intro v
    rw [reference?, if_neg]
    rintro (h | h)
    · exact hother '$' (by decide) h
    · exact hother '!' (by decide) h
  have hcolor : ∀ v, color? (c :: v) = none := by
    intro v
    unfold color?
    split
    · next h => exact absurd (List.cons.inj h).1 (hother '#' (by decide))
    · rfl
  have hword : ∀ {d : Char} {w : Text} {word : String} {kind : TokenKind} (v : Text),
      word.toList = d :: w →
      c ≠ d → word? word kind (c :: v) = none := by
    intro d w word kind v hw hcd
    refine Option.eq_none_iff_forall_ne_some.mpr fun x hx => ?_
    obtain ⟨n, hn, -⟩ := Option.map_eq_some_iff.mp hx
    obtain ⟨hfront, -⟩ := Recognizer.literal_eq_some.mp (notBefore_eq_some.mp hn).1
    rw [hw] at hfront
    exact hcd (List.cons_prefix_cons.mp hfront).1.symm
  have hbool : ∀ v, bool? (c :: v) = none := by
    intro v
    rw [bool?, hword v rfl (hother 't' (by decide)), hword v rfl (hother 'f' (by decide))]
    rfl
  exact ((settled_of_none hreference).leading (settled_of_none hcolor)
    (settled_of_none hbool)).missing hnone

end Lexeme
end Stylesheet
