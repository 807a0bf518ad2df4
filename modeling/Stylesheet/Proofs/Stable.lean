import Stylesheet.Proofs.Lexeme

/-!
# Forms do not look beyond what they take

A text may be cut off behind what a form takes of it, and the form takes the same.
`Recognizer.Stable` says so in two parts.  What the form takes of a text that goes on, as long as
that is within the text, it takes of the text alone; and where it takes something of the text alone,
it takes something of every text that goes on.  The second part is what the first one needs where
alternatives are tried in an order.
-/
namespace Stylesheet

namespace Text

/-- A run of characters that ends within a text is that of the text alone. -/
theorem takeWhile_append_of_le {p : Char → Bool} {t u : Text}
    (h : ((t ++ u).takeWhile p).length ≤ t.length) : (t ++ u).takeWhile p = t.takeWhile p := by
  rw [List.takeWhile_append] at h ⊢
  split
  · next hall =>
    rw [if_pos hall, List.length_append] at h
    have hnone : u.takeWhile p = [] := List.length_eq_zero_iff.mp (by omega)
    rw [hnone, List.append_nil]
    exact ((List.takeWhile_prefix p).eq_of_length hall).symm
  · rfl

/-- A run that stops inside of a text stops there whatever follows. -/
theorem takeWhile_append_of_lt {p : Char → Bool} {t u : Text}
    (h : (t.takeWhile p).length < t.length) : (t ++ u).takeWhile p = t.takeWhile p := by
  rw [List.takeWhile_append, if_neg (by omega)]

theorem length_takeWhile_le_append (p : Char → Bool) (t u : Text) :
    (t.takeWhile p).length ≤ ((t ++ u).takeWhile p).length := by
  rw [List.takeWhile_append]
  split
  · next hall => rw [hall, List.length_append]; omega
  · exact Nat.le_refl _

end Text

namespace Recognizer

/-- What a form takes within a text does not depend on what follows the text. -/
structure StableAt (form : Recognizer) (t : Text) : Prop where
  within : ∀ {u : Text} {n : Nat}, form (t ++ u) = some n → n ≤ t.length → form t = some n
  beyond : ∀ {n : Nat} (u : Text), form t = some n → ∃ m, form (t ++ u) = some m

/-- What a form takes within any text does not depend on what follows the text. -/
structure Stable (form : Recognizer) : Prop where
  bounded : ∀ {t : Text} {n : Nat}, form t = some n → n ≤ t.length
  within : ∀ {t u : Text} {n : Nat}, form (t ++ u) = some n → n ≤ t.length → form t = some n
  beyond : ∀ {t : Text} {n : Nat} (u : Text), form t = some n → ∃ m, form (t ++ u) = some m

/-- What a form takes of a text, but not all of it, it takes of every text that goes on. -/
def Greedy (form : Recognizer) : Prop :=
  ∀ ⦃t : Text⦄ ⦃n : Nat⦄ (u : Text), form t = some n → n < t.length → form (t ++ u) = some n

/-- What a form takes of a text it takes of every text that goes on. -/
def Fixed (form : Recognizer) : Prop :=
  ∀ ⦃t : Text⦄ ⦃n : Nat⦄ (u : Text), form t = some n → form (t ++ u) = some n

section
variable {form first second : Recognizer}

theorem Fixed.greedy (h : form.Fixed) : form.Greedy :=
  fun _ _ u hn _ => h u hn

/-- What is fixed needs only to be bounded and found again in the text alone. -/
theorem Fixed.stable (h : form.Fixed)
    (bounded : ∀ {t : Text} {n : Nat}, form t = some n → n ≤ t.length)
    (within : ∀ {t u : Text} {n : Nat}, form (t ++ u) = some n → n ≤ t.length → form t = some n) :
    form.Stable :=
  ⟨bounded, within, fun u ht => ⟨_, h u ht⟩⟩

theorem Stable.anywhere (h : form.Stable) (t : Text) : form.StableAt t :=
  ⟨h.within, h.beyond⟩

theorem stable_of_at (bounded : ∀ {t : Text} {n : Nat}, form t = some n → n ≤ t.length)
    (h : ∀ t, form.StableAt t) : form.Stable :=
  ⟨bounded, fun {t} => (h t).within, fun {t} => (h t).beyond⟩

/-- What is not found where a text goes on is not found in the text alone. -/
theorem StableAt.eq_none {t u : Text} (h : form.StableAt t) (hnone : form (t ++ u) = none) :
    form t = none := by
  cases ht : form t with
  | none => rfl
  | some n =>
    obtain ⟨m, hm⟩ := h.beyond u ht
    rw [hnone] at hm
    cases hm

theorem Stable.eq_none (h : form.Stable) {t u : Text} (hnone : form (t ++ u) = none) :
    form t = none :=
  (h.anywhere t).eq_none hnone

theorem optional_total (form : Recognizer) (t : Text) : ∃ n, form.optional t = some n := by
  unfold optional
  cases form t with
  | some n => exact ⟨n, rfl⟩
  | none => exact ⟨0, rfl⟩

/-! ### Ways to put forms together -/

theorem andThen_eq_some {t : Text} {n : Nat} :
    first.andThen second t = some n ↔
      ∃ k, first t = some k ∧ ∃ m, second (t.drop k) = some m ∧ k + m = n := by
  simp [andThen, Option.bind_eq_some_iff]

theorem bounded_andThen (h : first.Stable) (h' : second.Stable) {t : Text} {n : Nat}
    (hn : first.andThen second t = some n) : n ≤ t.length := by
  obtain ⟨k, hk, m, hm, rfl⟩ := andThen_eq_some.mp hn
  have hfirst := h.bounded hk
  have hsecond := h'.bounded hm
  rw [List.length_drop] at hsecond
  omega

/-- Of two forms that end within a text the first one does, so both are found in the text alone. -/
theorem within_andThen (h : first.Stable) (h' : second.Stable) {t u : Text} {n : Nat}
    (hn : first.andThen second (t ++ u) = some n) (hle : n ≤ t.length) :
    first.andThen second t = some n := by
  obtain ⟨k, hk, m, hm, rfl⟩ := andThen_eq_some.mp hn
  rw [List.drop_append_of_le_length (by omega)] at hm
  have hlength : m ≤ (t.drop k).length := by
    rw [List.length_drop]
    omega
  exact andThen_eq_some.mpr ⟨k, h.within hk (by omega), m, h'.within hm hlength, rfl⟩

/-- A form that is not found at the end of a text stands behind what is found inside of the text. -/
theorem lt_of_andThen (hnil : second [] = none) {t : Text} {k m : Nat}
    (hm : second (t.drop k) = some m) : k < t.length := by
  refine Nat.lt_of_not_le fun hle => ?_
  rw [List.drop_eq_nil_of_le hle, hnil] at hm
  cases hm

/-- The second form is looked for at the same place whatever follows: it is found behind the first
one only where text is left, and there a greedy form takes the same. -/
theorem Stable.andThen (h : first.Stable) (hgreedy : first.Greedy) (h' : second.Stable)
    (hnil : second [] = none) : (first.andThen second).Stable where
  bounded := bounded_andThen h h'
  within := within_andThen h h'
  beyond := by
    intro t n u hn
    obtain ⟨k, hk, m, hm, rfl⟩ := andThen_eq_some.mp hn
    have hlt := lt_of_andThen hnil hm
    obtain ⟨m', hm'⟩ := h'.beyond u hm
    rw [← List.drop_append_of_le_length (Nat.le_of_lt hlt)] at hm'
    exact ⟨k + m', andThen_eq_some.mpr ⟨k, hgreedy u hk hlt, m', hm', rfl⟩⟩

/-- What is always found may be found anywhere. -/
theorem Stable.andThen_total (h : first.Stable) (h' : second.Stable)
    (htotal : ∀ t, ∃ m, second t = some m) : (first.andThen second).Stable where
  bounded := bounded_andThen h h'
  within := within_andThen h h'
  beyond := by
    intro t n u hn
    obtain ⟨k, hk, -⟩ := andThen_eq_some.mp hn
    obtain ⟨k', hk'⟩ := h.beyond u hk
    obtain ⟨m, hm⟩ := htotal ((t ++ u).drop k')
    exact ⟨k' + m, andThen_eq_some.mpr ⟨k', hk', m, hm, rfl⟩⟩

theorem Fixed.andThen (hgreedy : first.Greedy) (h' : second.Fixed) (hnil : second [] = none) :
    (first.andThen second).Fixed := by
  intro t n u hn
  obtain ⟨k, hk, m, hm, rfl⟩ := andThen_eq_some.mp hn
  have hlt := lt_of_andThen hnil hm
  have hm' := h' u hm
  rw [← List.drop_append_of_le_length (Nat.le_of_lt hlt)] at hm'
  exact andThen_eq_some.mpr ⟨k, hgreedy u hk hlt, m, hm', rfl⟩

theorem Greedy.andThen (h : first.Fixed) (h' : second.Greedy) : (first.andThen second).Greedy := by
  intro t n u hn hlt
  obtain ⟨k, hk, m, hm, rfl⟩ := andThen_eq_some.mp hn
  have hlength : m < (t.drop k).length := by
    rw [List.length_drop]
    omega
  have hm' := h' u hm hlength
  rw [← List.drop_append_of_le_length (by omega)] at hm'
  exact andThen_eq_some.mpr ⟨k, h u hk, m, hm', rfl⟩

theorem orElse_eq_some {t : Text} {n : Nat} :
    first.orElse second t = some n ↔ first t = some n ∨ first t = none ∧ second t = some n :=
  orElse_eq_some_iff

/-- The first form is found in the text alone whenever it is found where the text goes on, so the
second one is tried in the same cases. -/
theorem StableAt.orElse {t : Text} (h : first.StableAt t) (h' : second.StableAt t) :
    (first.orElse second).StableAt t where
  within := by
    intro u n hn hle
    rcases orElse_eq_some.mp hn with hn | ⟨hnone, hn⟩
    · exact orElse_eq_some.mpr (.inl (h.within hn hle))
    · exact orElse_eq_some.mpr (.inr ⟨h.eq_none hnone, h'.within hn hle⟩)
  beyond := by
    intro n u hn
    cases hfirst : first (t ++ u) with
    | some m => exact ⟨m, orElse_eq_some.mpr (.inl hfirst)⟩
    | none =>
      rcases orElse_eq_some.mp hn with hn | ⟨_, hn⟩
      · rw [h.eq_none hfirst] at hn
        cases hn
      · obtain ⟨m, hm⟩ := h'.beyond u hn
        exact ⟨m, orElse_eq_some.mpr (.inr ⟨hfirst, hm⟩)⟩

theorem Stable.orElse (h : first.Stable) (h' : second.Stable) : (first.orElse second).Stable := by
  refine stable_of_at (fun {t n} hn => ?_) fun t => (h.anywhere t).orElse (h'.anywhere t)
  rcases orElse_eq_some.mp hn with hn | ⟨_, hn⟩
  · exact h.bounded hn
  · exact h'.bounded hn

/-- A form behind another one is looked for in what is left of a text. -/
theorem StableAt.andThen {t : Text} (h : first.Stable) (hfixed : first.Fixed)
    (hpos : first.Positive) (h' : ∀ v : Text, v.length < t.length → second.StableAt v) :
    (first.andThen second).StableAt t where
  within := by
    intro u n hn hle
    obtain ⟨k, hk, m, hm, rfl⟩ := andThen_eq_some.mp hn
    have hkpos := hpos _ k hk
    rw [List.drop_append_of_le_length (by omega)] at hm
    have hdrop : (t.drop k).length = t.length - k := List.length_drop
    have hm' := (h' (t.drop k) (by omega)).within hm (by omega)
    exact andThen_eq_some.mpr ⟨k, h.within hk (by omega), m, hm', rfl⟩
  beyond := by
    intro n u hn
    obtain ⟨k, hk, m, hm, rfl⟩ := andThen_eq_some.mp hn
    have hkpos := hpos _ k hk
    have hkle := h.bounded hk
    have hdrop : (t.drop k).length = t.length - k := List.length_drop
    obtain ⟨m', hm'⟩ := (h' (t.drop k) (by omega)).beyond u hm
    rw [← List.drop_append_of_le_length hkle] at hm'
    exact ⟨k + m', andThen_eq_some.mpr ⟨k, hfixed u hk, m', hm', rfl⟩⟩

/-- Alternatives of which never both fit. -/
theorem Greedy.orElse (h : first.Greedy) (h' : second.Greedy)
    (hapart : ∀ {t : Text} {n : Nat} (u : Text), second t = some n → first (t ++ u) = none) :
    (first.orElse second).Greedy := by
  intro t n u hn hlt
  rcases orElse_eq_some.mp hn with hn | ⟨_, hn⟩
  · exact orElse_eq_some.mpr (.inl (h u hn hlt))
  · exact orElse_eq_some.mpr (.inr ⟨hapart u hn, h' u hn hlt⟩)

theorem Stable.optional (h : form.Stable) : form.optional.Stable where
  bounded := by
    intro t n hn
    rcases orElse_eq_some_iff.mp hn with hn | ⟨_, hn⟩
    · exact h.bounded hn
    · cases hn
      exact Nat.zero_le _
  within := by
    intro t u n hn hle
    rcases orElse_eq_some_iff.mp hn with hn | ⟨hnone, hn⟩
    · exact orElse_eq_some_iff.mpr (.inl (h.within hn hle))
    · exact orElse_eq_some_iff.mpr (.inr ⟨h.eq_none hnone, hn⟩)
  beyond := by
    intro t n u _
    exact optional_total form (t ++ u)

end

/-! ### Single forms -/

theorem stable_run (p : Char → Bool) : (run p).Stable where
  bounded := by
    rintro t _ ⟨⟩
    exact (List.takeWhile_prefix p).length_le
  within := by
    rintro t u _ ⟨⟩ hle
    rw [run, Text.takeWhile_append_of_le hle]
  beyond := fun _ _ => ⟨_, rfl⟩

/-- A run that stops within a text stops there whatever follows. -/
theorem greedy_run (p : Char → Bool) : (run p).Greedy := by
  rintro t _ u ⟨⟩ hlt
  rw [run, Text.takeWhile_append_of_lt hlt]

/-- A run of at least one character is a run that is not empty. -/
theorem run₁_eq_some {p : Char → Bool} {t : Text} {n : Nat} :
    run₁ p t = some n ↔ 0 < n ∧ run p t = some n := by
  cases t with
  | nil => simp [run₁, run]; omega
  | cons c t =>
    by_cases hc : p c = true
    · rw [run₁, run, if_pos hc, List.takeWhile_cons_of_pos hc, List.length_cons]
      constructor
      · rintro ⟨⟩
        exact ⟨Nat.succ_pos _, rfl⟩
      · exact fun h => h.2
    · rw [run₁, run, if_neg hc, List.takeWhile_cons_of_neg hc]
      constructor
      · rintro ⟨⟩
      · rintro ⟨hpos, ⟨⟩⟩
        exact absurd hpos (Nat.lt_irrefl 0)

theorem stable_run₁ (p : Char → Bool) : (run₁ p).Stable where
  bounded := fun h => (stable_run p).bounded (run₁_eq_some.mp h).2
  within := by
    intro t u n h hle
    obtain ⟨hpos, hrun⟩ := run₁_eq_some.mp h
    exact run₁_eq_some.mpr ⟨hpos, (stable_run p).within hrun hle⟩
  beyond := by
    intro t n u h
    obtain ⟨hpos, hrun⟩ := run₁_eq_some.mp h
    cases hrun
    have hle := Text.length_takeWhile_le_append p t u
    exact ⟨_, run₁_eq_some.mpr ⟨by omega, rfl⟩⟩

theorem greedy_run₁ (p : Char → Bool) : (run₁ p).Greedy := by
  intro t n u h hlt
  obtain ⟨hpos, hrun⟩ := run₁_eq_some.mp h
  exact run₁_eq_some.mpr ⟨hpos, greedy_run p u hrun hlt⟩

/-- A word is taken exactly where a text begins with it. -/
theorem literal_eq_some {word t : Text} {n : Nat} :
    literal word t = some n ↔ word <+: t ∧ word.length = n := by
  unfold literal
  by_cases h : word.isPrefixOf t = true
  · simp [h, List.isPrefixOf_iff_prefix.mp h]
  · simp [h, mt List.isPrefixOf_iff_prefix.mpr h]

/-- A text that begins with a word does so whatever follows. -/
theorem fixed_literal (word : Text) : (literal word).Fixed := by
  intro t n u h
  obtain ⟨hfront, hn⟩ := literal_eq_some.mp h
  exact literal_eq_some.mpr ⟨hfront.trans (List.prefix_append t u), hn⟩

theorem stable_literal (word : Text) : (literal word).Stable := by
  refine (fixed_literal word).stable ?_ ?_
  · intro t n h
    obtain ⟨hfront, rfl⟩ := literal_eq_some.mp h
    exact hfront.length_le
  · intro t u n h hle
    obtain ⟨hfront, rfl⟩ := literal_eq_some.mp h
    exact literal_eq_some.mpr
      ⟨List.prefix_of_prefix_length_le hfront (List.prefix_append t u) hle, rfl⟩

theorem caseless_eq_some {word t : Text} {n : Nat} :
    caseless word t = some n ↔ (t.take word.length).map foldCase = word ∧ word.length = n := by
  unfold caseless
  by_cases h : (t.take word.length).map foldCase = word
  · rw [if_pos h]
    exact ⟨fun hn => ⟨h, Option.some.inj hn⟩, fun hn => congrArg some hn.2⟩
  · rw [if_neg h]
    exact ⟨nofun, fun hn => absurd hn.1 h⟩

theorem le_of_caseless {word t : Text} {n : Nat} (h : caseless word t = some n) : n ≤ t.length := by
  obtain ⟨hword, rfl⟩ := caseless_eq_some.mp h
  have hlength := congrArg List.length hword
  rw [List.length_map, List.length_take] at hlength
  omega

theorem fixed_caseless (word : Text) : (caseless word).Fixed := by
  intro t n u h
  have hle := le_of_caseless h
  obtain ⟨hword, rfl⟩ := caseless_eq_some.mp h
  refine caseless_eq_some.mpr ⟨?_, rfl⟩
  rw [List.take_append_of_le_length hle, hword]

theorem stable_caseless (word : Text) : (caseless word).Stable := by
  refine (fixed_caseless word).stable le_of_caseless ?_
  intro t u n h hle
  obtain ⟨hword, rfl⟩ := caseless_eq_some.mp h
  rw [List.take_append_of_le_length hle] at hword
  exact caseless_eq_some.mpr ⟨hword, rfl⟩

theorem fixed_one (p : Char → Bool) : (one p).Fixed := by
  intro t n u h
  cases t with
  | nil => cases h
  | cons c t => exact h

theorem stable_one (p : Char → Bool) : (one p).Stable := by
  have hone : ∀ {t : Text} {n : Nat}, one p t = some n → n = 1 := by
    intro t n h
    cases t with
    | nil => cases h
    | cons c t =>
      simp only [one] at h
      split at h
      · cases h
        rfl
      · cases h
  refine (fixed_one p).stable ?_ ?_
  · intro t n h
    cases t with
    | nil => cases h
    | cons c t =>
      rw [hone h]
      exact Nat.succ_pos _
  · intro t u n h hle
    cases t with
    | nil =>
      rw [hone h] at hle
      cases hle
    | cons c t => exact h

theorem stable_upTo (k : Nat) (p : Char → Bool) : (upTo k p).Stable where
  bounded := by
    intro t n h
    have hle := (stable_run₁ p).bounded h
    rw [List.length_take] at hle
    omega
  within := by
    intro t u n h hle
    unfold upTo at h ⊢
    rw [List.take_append] at h
    have hle' := (stable_run₁ p).bounded h
    refine (stable_run₁ p).within h ?_
    rw [List.length_append, List.length_take, List.length_take] at hle'
    rw [List.length_take]
    omega
  beyond := by
    intro t n u h
    unfold upTo at h ⊢
    rw [List.take_append]
    exact (stable_run₁ p).beyond _ h

/-! ### White space and comments -/

end Recognizer

namespace Text

/-- The beginning of a text begins as the text does. -/
theorem exists_of_take_append {t v w : Text} {n : Nat} {c : Char} (hpos : 0 < n)
    (hle : n ≤ t.length) (h : t.take n ++ v = c :: w) : ∃ t', t = c :: t' := by
  obtain ⟨k, rfl⟩ : ∃ k, n = k + 1 := ⟨n - 1, by omega⟩
  cases t with
  | nil => cases hle
  | cons d t =>
    obtain ⟨rfl, -⟩ := List.cons.inj h
    exact ⟨t, rfl⟩

theorem commentClose?_take {t : Text} {n : Nat} (v : Text) (h : commentClose? t = some n) :
    0 < n ∧ n ≤ t.length ∧ commentClose? (t.take n ++ v) = some n := by
  fun_induction commentClose? t generalizing n with
  | case1 t =>
    cases h
    exact ⟨Nat.succ_pos 1, Nat.succ_le_succ (Nat.succ_le_succ (Nat.zero_le _)), rfl⟩
  | case2 c t hclose ih =>
    obtain ⟨m, hm, rfl⟩ := Option.map_eq_some_iff.mp h
    obtain ⟨hpos, hle, htake⟩ := ih hm
    refine ⟨Nat.succ_pos m, Nat.succ_le_succ hle, ?_⟩
    rw [List.take_succ_cons, List.cons_append, commentClose?, htake]
    · rfl
    · intro w hc hw
      obtain ⟨t', rfl⟩ := exists_of_take_append hpos hle hw
      exact hclose t' hc rfl
  | case3 => cases h

theorem quotedLength?_take {q : Char} (hq : q ≠ '\\') {t : Text} {n : Nat} (v : Text)
    (h : quotedLength? q t = some n) :
    n ≤ t.length ∧ quotedLength? q (t.take n ++ v) = some n := by
  fun_induction quotedLength? q t generalizing n with
  | case1 => cases h
  | case2 => cases h
  | case3 c t hline ih =>
    obtain ⟨m, hm, rfl⟩ := Option.map_eq_some_iff.mp h
    obtain ⟨hle, htake⟩ := ih hm
    refine ⟨by rw [List.length_cons, List.length_cons]; omega, ?_⟩
    rw [List.take_succ_cons, List.take_succ_cons, List.cons_append, List.cons_append, quotedLength?,
      if_neg hline, htake]
    rfl
  | case4 t =>
    cases h
    refine ⟨by rw [List.length_cons]; omega, ?_⟩
    rw [List.take_succ_cons, List.take_zero, List.cons_append, List.nil_append,
      quotedLength?, if_pos rfl]
    exact fun _ _ hc => absurd hc hq
  | case5 c t hescape hquote ih =>
    obtain ⟨m, hm, rfl⟩ := Option.map_eq_some_iff.mp h
    obtain ⟨hle, htake⟩ := ih hm
    have hc : c ≠ '\\' := by
      rintro rfl
      cases t with
      | nil => cases hm
      | cons d t => exact hescape d t rfl rfl
    refine ⟨by rw [List.length_cons]; omega, ?_⟩
    rw [List.take_succ_cons, List.cons_append, quotedLength?, if_neg hquote, htake]
    · rfl
    · exact fun _ _ h => absurd h hc

end Text

namespace Recognizer

/-- What is found in what it takes, whatever follows, is found wherever a text is cut off behind. -/
theorem fixed_of_take {form : Recognizer} (h : ∀ {t : Text} {n : Nat} (v : Text),
    form t = some n → n ≤ t.length ∧ form (t.take n ++ v) = some n) : form.Fixed ∧ form.Stable := by
  have hfixed : form.Fixed := by
    intro t n u hn
    have htake := (h (t.drop n ++ u) hn).2
    rwa [← List.append_assoc, List.take_append_drop] at htake
  refine ⟨hfixed, hfixed.stable (fun hn => (h [] hn).1) fun {t u n} hn hle => ?_⟩
  have htake := (h (t.drop n) hn).2
  rwa [List.take_append_of_le_length hle, List.take_append_drop] at htake

theorem fixed_blockComment : blockComment.Fixed ∧ blockComment.Stable := by
  refine fixed_of_take fun {t n} v h => ?_
  unfold blockComment at h
  split at h
  · next t =>
    obtain ⟨m, hm, rfl⟩ := Option.map_eq_some_iff.mp h
    obtain ⟨-, hle, htake⟩ := Text.commentClose?_take v hm
    refine ⟨Nat.succ_le_succ (Nat.succ_le_succ hle), ?_⟩
    rw [List.take_succ_cons, List.take_succ_cons, List.cons_append, List.cons_append,
      blockComment, htake]
    rfl
  · cases h

theorem lineComment_eq : lineComment = (literal ['/', '/']).andThen (run (· != '\n')) := by
  funext t
  unfold lineComment andThen literal
  split
  · simp [run, Nat.add_comm]
  · next hslashes =>
    have hno : (['/', '/'] : Text).isPrefixOf t = false := by
      refine Bool.eq_false_iff.mpr fun hfront => ?_
      obtain ⟨w, rfl⟩ := List.isPrefixOf_iff_prefix.mp hfront
      exact hslashes w rfl
    simp [hno]

theorem stable_lineComment : lineComment.Stable := by
  rw [lineComment_eq]
  exact (stable_literal _).andThen_total (stable_run _) fun _ => ⟨_, rfl⟩

theorem stable_trivium : trivium.Stable :=
  (stable_run₁ _).orElse (fixed_blockComment.2.orElse stable_lineComment)

theorem positive_trivium : trivium.Positive := by
  intro t n h
  rcases orElse_eq_some.mp h with h | ⟨_, h⟩
  · exact (run₁_eq_some.mp h).1
  · rcases orElse_eq_some.mp h with h | ⟨_, h⟩
    · unfold blockComment at h
      split at h
      · obtain ⟨m, _, rfl⟩ := Option.map_eq_some_iff.mp h
        exact Nat.succ_pos _
      · cases h
    · unfold lineComment at h
      split at h
      · cases h
        exact Nat.succ_pos _
      · cases h

end Recognizer

namespace Text

open Recognizer (trivium)

theorem triviaLength_of_none {t : Text} (h : trivium t = none) : triviaLength t = 0 := by
  unfold triviaLength
  cases t with
  | nil => rfl
  | cons c t => simp only [h]

theorem triviaLength_of_some {t : Text} {n : Nat} (h : trivium t = some n) :
    triviaLength t = n + triviaLength (t.drop n) := by
  obtain ⟨k, rfl⟩ : ∃ k, n = k + 1 := ⟨n - 1, by have := Recognizer.positive_trivium t n h; omega⟩
  cases t with
  | nil => cases h
  | cons c t =>
    conv => lhs; unfold triviaLength
    simp only [h, List.drop_succ_cons]

/-- White space and comments that end within a text are those of the text alone. -/
theorem triviaLength_within {t u : Text} (h : triviaLength (t ++ u) ≤ t.length) :
    triviaLength (t ++ u) = triviaLength t := by
  induction hlength : t.length using Nat.strongRecOn generalizing t with
  | ind length ih =>
    cases htrivium : trivium (t ++ u) with
    | none =>
      rw [triviaLength_of_none htrivium,
        triviaLength_of_none (Recognizer.stable_trivium.eq_none htrivium)]
    | some n =>
      have hpos := Recognizer.positive_trivium _ n htrivium
      rw [triviaLength_of_some htrivium] at h ⊢
      have hle : n ≤ t.length := by omega
      rw [List.drop_append_of_le_length hle] at h ⊢
      have hshorter : (t.drop n).length < length := by
        rw [List.length_drop]
        omega
      rw [triviaLength_of_some (Recognizer.stable_trivium.within htrivium hle),
        ih _ hshorter (by rw [List.length_drop]; omega) rfl]

/-- Behind white space and comments there are no more of them. -/
theorem triviaLength_drop (t : Text) : triviaLength (t.drop (triviaLength t)) = 0 := by
  induction hlength : t.length using Nat.strongRecOn generalizing t with
  | ind length ih =>
    cases htrivium : trivium t with
    | none =>
      have hzero := triviaLength_of_none htrivium
      rw [hzero, List.drop_zero, hzero]
    | some n =>
      have hpos := Recognizer.positive_trivium _ n htrivium
      have hle := Recognizer.stable_trivium.bounded htrivium
      rw [triviaLength_of_some htrivium, ← List.drop_drop]
      exact ih (t.drop n).length (by rw [List.length_drop]; omega) _ rfl

/-- White space and comments are within the text. -/
theorem triviaLength_le (t : Text) : triviaLength t ≤ t.length := by
  induction hlength : t.length using Nat.strongRecOn generalizing t with
  | ind length ih =>
    cases htrivium : trivium t with
    | none =>
      rw [triviaLength_of_none htrivium]
      exact Nat.zero_le _
    | some n =>
      have hpos := Recognizer.positive_trivium _ n htrivium
      have hle := Recognizer.stable_trivium.bounded htrivium
      have hrest := ih (t.drop n).length (by rw [List.length_drop]; omega) _ rfl
      rw [List.length_drop] at hrest
      rw [triviaLength_of_some htrivium]
      omega

end Text

theorem Recognizer.trivia_eq_some {t : Text} {n : Nat} :
    trivia t = some n ↔ 0 < n ∧ t.triviaLength = n := by
  unfold trivia
  split
  · next h =>
    rw [h]
    exact ⟨nofun, fun hn => absurd (hn.2 ▸ hn.1) (Nat.lt_irrefl 0)⟩
  · next m h =>
    constructor
    · rintro ⟨⟩
      exact ⟨Nat.pos_of_ne_zero h, rfl⟩
    · exact fun hn => congrArg some hn.2

theorem Recognizer.trivia_eq_none_iff {t : Text} : trivia t = none ↔ t.triviaLength = 0 := by
  constructor
  · intro h
    refine Nat.eq_zero_of_not_pos fun hpos => ?_
    rw [trivia_eq_some.mpr ⟨hpos, rfl⟩] at h
    cases h
  · intro h
    rw [trivia, h]
    rfl

/-- A space where no white space and no comment follows is all that there is of them. -/
theorem Recognizer.trivia_space {t : Text} (h : trivia t = none) : trivia (' ' :: t) = some 1 := by
  have hnone := trivia_eq_none_iff.mp h
  have hblanks : t.takeWhile isBlank = [] := by
    cases t with
    | nil => rfl
    | cons x v =>
      by_cases hx : isBlank x = true
      · have htrivium : trivium (x :: v) = some (v.takeWhile isBlank).length.succ := by
          rw [trivium, orElse, blanks, run₁, if_pos hx]
          rfl
        rw [Text.triviaLength_of_some htrivium] at hnone
        omega
      · exact List.takeWhile_cons_of_neg hx
  have htrivium : trivium (' ' :: t) = some 1 := by
    rw [trivium, orElse, blanks, run₁, hblanks]
    rfl
  rw [trivia, Text.triviaLength_of_some htrivium, List.drop_one, List.tail_cons, hnone]
  rfl

theorem Cursor.blanks_rest_skip (c : Cursor) :
    Recognizer.blanks (c.skip Recognizer.blanks).rest = none := by
  unfold Cursor.skip Cursor.pass?
  cases h : Recognizer.blanks c.rest with
  | none => exact h
  | some n =>
    have hn : (c.rest.takeWhile isBlank).length = n :=
      Option.some.inj (Recognizer.run₁_eq_some.mp h).2
    have hdrop : c.rest.drop n = c.rest.dropWhile isBlank := by
      conv => lhs; rw [← List.takeWhile_append_dropWhile (p := isBlank) (l := c.rest)]
      rw [← hn, List.drop_left]
    show Recognizer.blanks (c.rest.drop n) = none
    rw [hdrop]
    have hhead := List.head?_dropWhile_not isBlank c.rest
    cases hrest : c.rest.dropWhile isBlank with
    | nil => rfl
    | cons x t =>
      rw [hrest] at hhead
      rw [Recognizer.blanks, Recognizer.run₁, if_neg (Bool.eq_false_iff.mp hhead)]

theorem Cursor.trivia_rest_skip (c : Cursor) :
    Recognizer.trivia (c.skip Recognizer.trivia).rest = none := by
  unfold Cursor.skip Cursor.pass?
  cases h : Recognizer.trivia c.rest with
  | none => exact h
  | some n =>
    obtain ⟨_, rfl⟩ := Recognizer.trivia_eq_some.mp h
    exact Recognizer.trivia_eq_none_iff.mpr (Text.triviaLength_drop c.rest)

/-! ### Names -/

namespace Text

theorem nameLength_le (t : Text) : nameLength t ≤ t.length := by
  fun_induction nameLength t with
  | case1 c t _ ih => exact Nat.succ_le_succ (Nat.succ_le_succ ih)
  | case2 => exact Nat.zero_le _
  | case3 c t _ _ ih => exact Nat.succ_le_succ ih
  | case4 => exact Nat.zero_le _
  | case5 => exact Nat.zero_le _

theorem nameLength_of_body {c : Char} (hc : isNameBody c = true) (t : Text) :
    nameLength (c :: t) = nameLength t + 1 := by
  rw [nameLength, if_pos hc]
  rintro _ _ rfl
  exact absurd hc (by decide)

theorem nameLength_of_not_body {c : Char} (hc : isNameBody c = false) (hescape : c ≠ '\\')
    (t : Text) : nameLength (c :: t) = 0 := by
  rw [nameLength, if_neg (by rw [hc]; exact Bool.false_ne_true)]
  exact fun _ _ h => absurd h hescape

/-- A name that ends within a text is that of the text alone. -/
theorem nameLength_within {t u : Text} (h : nameLength (t ++ u) ≤ t.length) :
    nameLength (t ++ u) = nameLength t := by
  fun_induction nameLength t with
  | case1 c t hc ih =>
    rw [List.cons_append, List.cons_append, nameLength, if_pos hc] at h ⊢
    rw [ih (Nat.le_of_succ_le_succ (Nat.le_of_succ_le_succ h))]
  | case2 c t hc => rw [List.cons_append, List.cons_append, nameLength, if_neg hc]
  | case3 c t hescape hc ih =>
    rw [List.cons_append, nameLength_of_body hc] at h ⊢
    rw [ih (Nat.le_of_succ_le_succ h)]
  | case4 c t hescape hc =>
    rw [List.cons_append] at h ⊢
    by_cases hc' : c = '\\'
    · -- A backslash that ends the text would take a character behind it.
      subst hc'
      cases t with
      | cons d t => exact absurd rfl (hescape d t rfl)
      | nil =>
        cases u with
        | nil => rfl
        | cons d u =>
          rw [List.nil_append, nameLength] at h ⊢
          split at h
          · exact absurd h (by simp)
          · next hd => rw [if_neg hd]
    · exact nameLength_of_not_body (Bool.eq_false_iff.mpr hc) hc' _
  | case5 => exact Nat.eq_zero_of_le_zero h

end Text

namespace Recognizer

/-- A bare identifier begins with an escape or with a character that may start a name. -/
theorem bareIdentifier_eq_some {t : Text} {n : Nat} :
    bareIdentifier t = some n ↔
      (∃ c v, t = '\\' :: c :: v ∧ isEscapable c = true ∧ Text.nameLength v + 2 = n) ∨
        ∃ c v, t = c :: v ∧ isNameStart c = true ∧ Text.nameLength v + 1 = n := by
  constructor
  · intro h
    unfold bareIdentifier at h
    split at h
    · next c v =>
      split at h
      · next hc =>
        cases h
        exact .inl ⟨c, v, rfl, hc, rfl⟩
      · cases h
    · next c v _ =>
      split at h
      · next hc =>
        cases h
        exact .inr ⟨c, v, rfl, hc, rfl⟩
      · cases h
    · cases h
  · rintro (⟨c, v, rfl, hc, rfl⟩ | ⟨c, v, rfl, hc, rfl⟩)
    · rw [bareIdentifier, if_pos hc]
    · rw [bareIdentifier, if_pos hc]
      rintro _ _ rfl
      exact absurd hc (by decide)

theorem stable_bareIdentifier : bareIdentifier.Stable where
  bounded := by
    intro t n h
    rcases bareIdentifier_eq_some.mp h with ⟨c, v, rfl, _, rfl⟩ | ⟨c, v, rfl, _, rfl⟩
    · exact Nat.succ_le_succ (Nat.succ_le_succ (Text.nameLength_le v))
    · exact Nat.succ_le_succ (Text.nameLength_le v)
  within := by
    intro t u n h hle
    rcases bareIdentifier_eq_some.mp h with ⟨c, v, heq, hc, rfl⟩ | ⟨c, v, heq, hc, rfl⟩
    · obtain ⟨w, rfl, rfl⟩ : ∃ w, t = '\\' :: c :: w ∧ v = w ++ u := by
        rcases t with _ | ⟨a, _ | ⟨b, w⟩⟩
        · cases hle
        · exact absurd hle (by simp)
        · obtain ⟨rfl, rfl, rfl⟩ : a = '\\' ∧ b = c ∧ w ++ u = v := by simpa using heq
          exact ⟨w, rfl, rfl⟩
      have hname := Text.nameLength_within (Nat.le_of_succ_le_succ (Nat.le_of_succ_le_succ hle))
      exact bareIdentifier_eq_some.mpr (.inl ⟨c, w, rfl, hc, by rw [hname]⟩)
    · obtain ⟨w, rfl, rfl⟩ : ∃ w, t = c :: w ∧ v = w ++ u := by
        cases t with
        | nil => cases hle
        | cons a w =>
          obtain ⟨rfl, rfl⟩ := List.cons.inj heq
          exact ⟨w, rfl, rfl⟩
      have hname := Text.nameLength_within (Nat.le_of_succ_le_succ hle)
      exact bareIdentifier_eq_some.mpr (.inr ⟨c, w, rfl, hc, by rw [hname]⟩)
  beyond := by
    intro t n u h
    rcases bareIdentifier_eq_some.mp h with ⟨c, v, rfl, hc, -⟩ | ⟨c, v, rfl, hc, -⟩
    · exact ⟨_, bareIdentifier_eq_some.mpr (.inl ⟨c, v ++ u, rfl, hc, rfl⟩)⟩
    · exact ⟨_, bareIdentifier_eq_some.mpr (.inr ⟨c, v ++ u, rfl, hc, rfl⟩)⟩

/-- An identifier is a bare one with or without a dash before it. -/
theorem identifier_eq :
    identifier = ((literal ['-']).andThen bareIdentifier).orElse bareIdentifier := by
  funext t
  unfold identifier
  split
  · next v =>
    have hhyphen : bareIdentifier ('-' :: v) = none := by
      rw [bareIdentifier, if_neg (by decide)]
      exact nofun
    rw [Recognizer.orElse, Recognizer.andThen, hhyphen]
    cases hv : bareIdentifier v with
    | none => simp [literal, hv]
    | some n => simp [literal, hv, Nat.add_comm]
  · next hhyphen =>
    have hno : literal ['-'] t = none := by
      cases h : literal ['-'] t with
      | none => rfl
      | some n =>
        obtain ⟨⟨v, rfl⟩, -⟩ := literal_eq_some.mp h
        exact absurd rfl (hhyphen v)
    rw [Recognizer.orElse, Recognizer.andThen, hno]
    rfl

theorem stable_identifier : identifier.Stable := by
  rw [identifier_eq]
  exact ((stable_literal _).andThen (fixed_literal _).greedy stable_bareIdentifier rfl).orElse
    stable_bareIdentifier

/-! ### Spans that are kept as text -/

theorem fixed_quoted : quoted.Fixed ∧ quoted.Stable := by
  refine fixed_of_take fun {t n} v h => ?_
  unfold quoted at h
  split at h
  · cases h
  · next c t =>
    split at h
    · next hc =>
      obtain ⟨m, hm, rfl⟩ := Option.map_eq_some_iff.mp h
      have hescape : c ≠ '\\' := by
        rcases hc with rfl | rfl
        · decide
        · decide
      obtain ⟨hle, htake⟩ := Text.quotedLength?_take hescape v hm
      refine ⟨Nat.succ_le_succ hle, ?_⟩
      rw [List.take_succ_cons, List.cons_append, quoted, if_pos hc, htake]
      rfl
    · cases h

theorem stable_closing : Text.addressLengths.closing.Stable :=
  (stable_run _).andThen (greedy_run _) (stable_literal _) rfl

/-- A backslash and a character that does not end the line. -/
def escapedChar : Recognizer
  | '\\' :: c :: _ => if c = '\n' then none else some 2
  | _ => none

theorem fixed_escapedChar : escapedChar.Fixed ∧ escapedChar.Stable := by
  refine fixed_of_take fun {t n} v h => ?_
  unfold escapedChar at h
  split at h
  · next c t =>
    split at h
    · cases h
    · next hc =>
      cases h
      exact ⟨Nat.succ_le_succ (Nat.succ_le_succ (Nat.zero_le _)), if_neg hc⟩
  · cases h

theorem positive_escapedChar : escapedChar.Positive := by
  intro t n h
  unfold escapedChar at h
  split at h
  · split at h
    · cases h
    · cases h
      exact Nat.succ_pos 1
  · cases h

/-- An address without quotes, up to the parenthesis that closes it. -/
def address : Recognizer :=
  fun t => (Text.addressLengths t).1

/-- An address goes on with an escape or a character of its own, or it ends. -/
theorem address_eq :
    address = (escapedChar.andThen address).orElse
      (((one Text.isAddressChar).andThen address).orElse Text.addressLengths.closing) := by
  funext t
  cases t with
  | nil => rfl
  | cons c t =>
    have hsecond : (Text.addressLengths t).2 = address t.tail := by
      cases t with
      | nil => rfl
      | cons d t => rfl
    have hmap : ∀ (k : Nat) (r : Option Nat), (r.bind fun m => some (k + m)) = r.map (· + k) := by
      intro k r
      cases r with
      | none => rfl
      | some m => exact congrArg some (Nat.add_comm k m)
    have hescaped : escapedChar.andThen address (c :: t) =
        if c = '\\' ∧ t.head?.any (· != '\n') then (address t.tail).map (· + 2) else none := by
      rw [Recognizer.andThen]
      by_cases hc : c = '\\' ∧ t.head?.any (· != '\n') = true
      · rw [if_pos hc]
        obtain ⟨rfl, hd⟩ := hc
        cases t with
        | nil => cases hd
        | cons d t =>
          have hline : d ≠ '\n' := by simpa using hd
          rw [escapedChar, if_neg hline]
          exact hmap 2 (address t)
      · rw [if_neg hc]
        cases hescaped : escapedChar (c :: t) with
        | none => rfl
        | some k =>
          unfold escapedChar at hescaped
          split at hescaped
          · next d v heq =>
            obtain ⟨rfl, rfl⟩ := List.cons.inj heq
            split at hescaped
            · cases hescaped
            · next hline => exact absurd ⟨rfl, by simpa using hline⟩ hc
          · cases hescaped
    have hsingle : (one Text.isAddressChar).andThen address (c :: t) =
        if Text.isAddressChar c then (address t).map (· + 1) else none := by
      rw [Recognizer.andThen, one]
      split
      · exact hmap 1 (address t)
      · rfl
    rw [Recognizer.orElse, Recognizer.orElse, hescaped, hsingle]
    conv => lhs; rw [address, Text.addressLengths]
    simp only [hsecond]
    rfl

theorem stable_address : address.Stable := by
  have hbounded : ∀ {t : Text} {n : Nat}, address t = some n → n ≤ t.length := by
    intro t n h
    induction hlength : t.length using Nat.strongRecOn generalizing t n with
    | ind length ih =>
      have hstep : ∀ {first : Recognizer}, first.Stable → first.Positive →
          first.andThen address t = some n → n ≤ length := by
        intro first hfirst hpos hn
        obtain ⟨k, hk, m, hm, rfl⟩ := andThen_eq_some.mp hn
        have hkpos := hpos t k hk
        have hkle := hfirst.bounded hk
        have hdrop : (t.drop k).length = t.length - k := List.length_drop
        have := ih _ (by omega) hm rfl
        omega
      rw [address_eq] at h
      rcases orElse_eq_some.mp h with h | ⟨_, h⟩
      · exact hstep fixed_escapedChar.2 positive_escapedChar h
      · rcases orElse_eq_some.mp h with h | ⟨_, h⟩
        · exact hstep (stable_one _) (positive_one _) h
        · exact hlength ▸ stable_closing.bounded h
  refine stable_of_at hbounded fun t => ?_
  induction hlength : t.length using Nat.strongRecOn generalizing t with
  | ind length ih =>
    have hshorter : ∀ v : Text, v.length < t.length → address.StableAt v :=
      fun v hv => ih v.length (hlength ▸ hv) v rfl
    rw [address_eq]
    refine .orElse
      (.andThen fixed_escapedChar.2 fixed_escapedChar.1 positive_escapedChar hshorter) ?_
    exact .orElse (.andThen (stable_one _) (fixed_one _) (positive_one _) hshorter)
      (stable_closing.anywhere t)

theorem stable_uri : uri.Stable := by
  have hbody : ((quoted.andThen Text.addressLengths.closing).orElse address).Stable :=
    (fixed_quoted.2.andThen fixed_quoted.1.greedy stable_closing rfl).orElse stable_address
  have hspaced := (stable_run isBlank).andThen (greedy_run isBlank) hbody rfl
  exact (stable_caseless _).andThen (fixed_caseless _).greedy hspaced rfl

theorem stable_unicodeRange : unicodeRange.Stable := by
  have hupper : ((literal ['-']).andThen (upTo 6 isHexDigit)).Stable :=
    (stable_literal _).andThen (fixed_literal _).greedy (stable_upTo _ _) rfl
  have hdigits := (stable_upTo 6 fun c => isHexDigit c || c == '?').andThen_total hupper.optional
    (optional_total _)
  have hplus := (stable_literal ['+']).andThen (fixed_literal _).greedy hdigits rfl
  exact (stable_one _).andThen (fixed_one _).greedy hplus rfl

/-! ### The beginning of a special function -/

namespace specialHead

theorem fixed_vendor : vendor.Fixed ∧ vendor.Stable := by
  have hname :
      ((run₁ fun c => isLetter c || c.isDigit || c == '_').andThen (literal ['-'])).Fixed :=
    .andThen (greedy_run₁ _) (fixed_literal _) rfl
  refine ⟨.andThen (fixed_literal _).greedy hname rfl, ?_⟩
  exact (stable_literal _).andThen (fixed_literal _).greedy
    ((stable_run₁ _).andThen (greedy_run₁ _) (stable_literal _) rfl) rfl

theorem head?_of_literal {c : Char} {t : Text} {n : Nat} (h : literal [c] t = some n) :
    t.head? = some c := by
  obtain ⟨⟨v, rfl⟩, -⟩ := literal_eq_some.mp h
  rfl

/-- Up to its case, a text has the first character of the word that it begins with. -/
theorem head?_of_caseless {c : Char} {word t : Text} {n : Nat}
    (h : caseless (c :: word) t = some n) : t.head?.map foldCase = some c := by
  obtain ⟨hword, -⟩ := caseless_eq_some.mp h
  cases t with
  | nil => cases hword
  | cons d t => exact congrArg some (List.cons.inj hword).1

theorem head?_of_vendor {t : Text} {n : Nat} (h : vendor t = some n) : t.head? = some '-' := by
  obtain ⟨k, hk, -⟩ := andThen_eq_some.mp h
  exact head?_of_literal hk

/-- A name that begins with a vendor's name begins with a hyphen, and one without with a letter. -/
theorem head?_of_calculation {t : Text} {n : Nat} (h : calculation t = some n) :
    t.head?.map foldCase = some '-' ∨ t.head?.map foldCase = some 'c' := by
  obtain ⟨k, hk, m, hm, -⟩ := andThen_eq_some.mp h
  rcases orElse_eq_some_iff.mp hk with hk | ⟨_, hk⟩
  · rw [head?_of_vendor hk]
    exact .inl rfl
  · cases hk
    exact .inr (head?_of_caseless hm)

theorem fixed_calculation : calculation.Fixed := by
  intro t n u h
  obtain ⟨k, hk, m, hm, rfl⟩ := andThen_eq_some.mp h
  have hle := fixed_vendor.2.optional.bounded hk
  have hm' := fixed_caseless _ u hm
  rw [← List.drop_append_of_le_length hle] at hm'
  refine andThen_eq_some.mpr ⟨k, ?_, m, hm', rfl⟩
  rcases orElse_eq_some_iff.mp hk with hk | ⟨hnone, hk⟩
  · exact orElse_eq_some_iff.mpr (.inl (fixed_vendor.1 u hk))
  · -- A name without a vendor's name begins with a letter, so none is found there later either.
    cases hk
    refine orElse_eq_some_iff.mpr (.inr ⟨?_, rfl⟩)
    cases hvendor : vendor (t ++ u) with
    | none => rfl
    | some j =>
      have hletter := head?_of_caseless (fixed_caseless _ u hm)
      rw [List.drop_zero, head?_of_vendor hvendor] at hletter
      exact absurd hletter (by decide)

theorem stable_calculation : calculation.Stable :=
  fixed_calculation.stable
    (bounded_andThen fixed_vendor.2.optional (stable_caseless _))
    (within_andThen fixed_vendor.2.optional (stable_caseless _))

theorem stable_progid : progid.Stable :=
  (stable_caseless _).andThen_total (stable_run _) fun _ => ⟨_, rfl⟩

theorem greedy_progid : progid.Greedy :=
  .andThen (fixed_caseless _) (greedy_run _)

end specialHead

open specialHead in
theorem stable_specialHead : specialHead.Stable := by
  have hstable : (calculation.orElse ((caseless "expression".toList).orElse progid)).Stable :=
    stable_calculation.orElse ((stable_caseless _).orElse stable_progid)
  have hhead : ∀ {t : Text} {c : Char} (u : Text), t.head?.map foldCase = some c →
      (t ++ u).head?.map foldCase = some c := by
    intro t c u h
    cases t with
    | nil => cases h
    | cons d t => exact h
  have hprogid : ∀ {t : Text} {n : Nat}, progid t = some n → t.head?.map foldCase = some 'p' := by
    intro t n h
    obtain ⟨k, hk, -⟩ := andThen_eq_some.mp h
    exact head?_of_caseless hk
  -- The three names begin with different characters, so never two of them fit.
  have hnames : ((caseless "expression".toList).orElse progid).Greedy := by
    refine (fixed_caseless _).greedy.orElse greedy_progid fun {t n} u h => ?_
    cases hother : caseless "expression".toList (t ++ u) with
    | none => rfl
    | some m =>
      exact absurd ((hhead u (hprogid h)).symm.trans (head?_of_caseless hother)) (by decide)
  have hgreedy : (calculation.orElse ((caseless "expression".toList).orElse progid)).Greedy := by
    refine fixed_calculation.greedy.orElse hnames fun {t n} u h => ?_
    have hletter : (t ++ u).head?.map foldCase = some 'e' ∨
        (t ++ u).head?.map foldCase = some 'p' := by
      rcases orElse_eq_some.mp h with h | ⟨_, h⟩
      · exact .inl (hhead u (head?_of_caseless h))
      · exact .inr (hhead u (hprogid h))
    cases hother : calculation (t ++ u) with
    | none => rfl
    | some m =>
      rcases head?_of_calculation hother with hc | hc
      · rw [hc] at hletter
        exact absurd hletter (by decide)
      · rw [hc] at hletter
        exact absurd hletter (by decide)
  exact hstable.andThen hgreedy (stable_literal _) rfl

end Recognizer
end Stylesheet
