import Stylesheet.Proofs.ByteForms
import Stylesheet.Proofs.SpecialFunction

/-!
# The texts that a closing parenthesis ends

What stands in parentheses is found by counting: the parentheses that are open, and inside an
interpolation its braces.  `Body` says without counting what may stand there, as a grammar: escapes,
interpolations, bodies in parentheses, and single characters.  An interpolation is the only part of
it that goes by numbers, for it ends at the first brace that leaves one more closed than opened
(`Closing`).

The count reads a body to its end and is then where it was (`closingParen?_body`), and whatever it
takes is made of as many bodies as parentheses were open, each with the parenthesis behind it
(`Closes`).  So it finds the end of a text exactly if the text begins with a body and a closing
parenthesis (`Closed`), and there is only one such beginning (`balancedLength?_recognises`).
-/
namespace Stylesheet.Text

/-! ### The grammar -/

/-- A text with so many more closing braces than opening ones. -/
def Surplus (n : Nat) (t : Text) : Prop :=
  t.count '}' = t.count '{' + n

/-- A shortest text with so many more closing braces than opening ones. -/
def Closing (n : Nat) (t : Text) : Prop :=
  Surplus n t ∧ ∀ u, u <+: t → Surplus n u → u = t

/-- What may stand in parentheses. -/
inductive Body : Text → Prop
  | nil : Body []
  /-- A backslash with the character behind it. -/
  | escape {t : Text} (c : Char) (others : Body t) : Body ('\\' :: c :: t)
  | interpolation {u t : Text} (inside : Closing 1 u) (others : Body t) :
      Body ('#' :: '{' :: (u ++ t))
  | parens {u t : Text} (inside : Body u) (others : Body t) : Body ('(' :: (u ++ ')' :: t))
  /-- Any other character. A hash sign is one unless a brace follows. -/
  | char {t : Text} (c : Char) (plain : c ∉ ['(', ')', '\\']) (hash : c = '#' → t.head? ≠ some '{')
    (others : Body t) : Body (c :: t)

/-- A body with the parenthesis that closes it. -/
def Closed (t : Text) : Prop :=
  ∃ body, Body body ∧ t = body ++ [')']

/-- So many bodies and one more, each with a parenthesis that closes it. -/
inductive Closes : Nat → Text → Prop
  | last {u : Text} (body : Body u) : Closes 0 (u ++ [')'])
  | next {n : Nat} {u v : Text} (body : Body u) (others : Closes n v) :
      Closes (n + 1) (u ++ ')' :: v)

theorem closes_zero_iff {t : Text} : Closes 0 t ↔ Closed t := by
  constructor
  · rintro ⟨body⟩
    exact ⟨_, body, rfl⟩
  · rintro ⟨u, body, rfl⟩
    exact .last body

/-! ### Interpolations -/

theorem closing_zero_iff {t : Text} : Closing 0 t ↔ t = [] := by
  constructor
  · intro h
    exact (h.2 [] List.nil_prefix rfl).symm
  · rintro rfl
    exact ⟨rfl, fun u hu _ => List.prefix_nil.mp hu⟩

/-- The number of braces that are open behind a character, of which at least one was before. -/
theorem surplus_cons_iff (n : Nat) (c : Char) (t : Text) :
    Surplus (n + 1) (c :: t) ↔
      Surplus (if c = '{' then n + 2 else if c = '}' then n else n + 1) t := by
  unfold Surplus
  by_cases hopen : c = '{'
  · subst hopen
    rw [if_pos rfl, List.count_cons_self, List.count_cons_of_ne (by decide)]
    omega
  · rw [if_neg hopen, List.count_cons_of_ne (a := '{') hopen]
    by_cases hclose : c = '}'
    · subst hclose
      rw [if_pos rfl, List.count_cons_self]
      omega
    · rw [if_neg hclose, List.count_cons_of_ne (a := '}') hclose]

theorem closing_cons_iff (n : Nat) (c : Char) (t : Text) :
    Closing (n + 1) (c :: t) ↔
      Closing (if c = '{' then n + 2 else if c = '}' then n else n + 1) t := by
  unfold Closing
  rw [surplus_cons_iff]
  refine and_congr_right fun _ => ⟨fun h u hu hsurplus => ?_, fun h u hu hsurplus => ?_⟩
  · have hcons :=
      h (c :: u) (List.cons_prefix_cons.mpr ⟨rfl, hu⟩) ((surplus_cons_iff n c u).mpr hsurplus)
    exact (List.cons.inj hcons).2
  · rcases List.prefix_cons_iff.mp hu with rfl | ⟨v, rfl, hv⟩
    · -- In front of the first character nothing is closed yet.
      exact absurd hsurplus (by rintro ⟨⟩)
    · rw [h v hv ((surplus_cons_iff n c v).mp hsurplus)]

/-- Two texts that are passed one behind the other are one text that is passed. -/
theorem map_add_add (r : Option Nat) (n m : Nat) :
    (r.map (· + n)).map (· + m) = r.map (· + (n + m)) := by
  cases r with
  | none => rfl
  | some k => exact congrArg some (Nat.add_assoc k n m)

/-- The count of braces ends where the shortest text does that closes them. -/
theorem closingParen?_closing {braces : Nat} {u : Text} (h : Closing braces u) (parens : Nat)
    (v : Text) :
    closingParen? parens braces (u ++ v) = (closingParen? parens 0 v).map (· + u.length) := by
  induction u generalizing braces with
  | nil =>
    have hbraces : braces = 0 := by simpa [Surplus] using h.1.symm
    rw [hbraces, List.nil_append]
    exact Option.map_id'.symm
  | cons c u ih =>
    cases braces with
    | zero => cases closing_zero_iff.mp h
    | succ braces =>
      rw [List.cons_append, closingParen?, ih ((closing_cons_iff braces c u).mp h), map_add_add,
        List.length_cons]

/-! ### Bodies -/

/-- **The count goes through a body and is behind it as it was before.**  What is behind the body
begins with the parenthesis that closes it. -/
theorem closingParen?_body {u : Text} (h : Body u) (parens : Nat) (v : Text) :
    closingParen? parens 0 (u ++ ')' :: v) =
      (closingParen? parens 0 (')' :: v)).map (· + u.length) := by
  induction h generalizing parens v with
  | nil => exact Option.map_id'.symm
  | escape c _ ih =>
    rw [List.cons_append, List.cons_append, closingParen?, ih, map_add_add]
    rfl
  | @interpolation u t inside _ ih =>
    have hlength : ('#' :: '{' :: (u ++ t)).length = t.length + (u.length + 2) := by
      rw [List.length_cons, List.length_cons, List.length_append]
      omega
    rw [List.cons_append, List.cons_append, List.append_assoc, closingParen?,
      closingParen?_closing inside, ih, map_add_add, map_add_add, hlength]
  | @parens u t _ _ ihinside ih =>
    have hlength : ('(' :: (u ++ ')' :: t)).length = t.length + (1 + (u.length + 1)) := by
      rw [List.length_cons, List.length_append, List.length_cons]
      omega
    -- Inside one more parenthesis is open, and the one behind closes it.
    rw [List.cons_append, List.append_assoc, closingParen?, List.cons_append, ihinside,
      closingParen?, ih, map_add_add, map_add_add, map_add_add, hlength]
  | @char t c plain hash _ ih =>
    have hne : c ≠ '(' ∧ c ≠ ')' ∧ c ≠ '\\' := by simpa using plain
    rw [List.cons_append, closingParen?, ih, map_add_add, List.length_cons]
    · exact hne.1
    · exact hne.2.1
    · exact fun _ _ hc _ => hne.2.2 hc
    · intro w hc hw
      cases t with
      | nil => cases hw
      | cons d t =>
        cases hw
        exact hash hc rfl

theorem closingParen?_closed {t : Text} (h : Closed t) (v : Text) :
    closingParen? 0 0 (t ++ v) = some t.length := by
  obtain ⟨u, body, rfl⟩ := h
  rw [List.append_assoc, List.singleton_append, closingParen?_body body, closingParen?,
    Option.map_some, List.length_append, List.length_singleton, Nat.add_comm]

/-! ### What is counted -/

/-- What makes any body longer makes the first of several longer. -/
theorem Closes.prepend {n : Nat} {front v : Text}
    (hfront : ∀ u w, v = u ++ ')' :: w → Body u → Body (front ++ u)) (h : Closes n v) :
    Closes n (front ++ v) := by
  cases h with
  | last body =>
    rw [← List.append_assoc]
    exact .last (hfront _ [] rfl body)
  | next body others =>
    rw [← List.append_assoc]
    exact .next (hfront _ _ rfl body) others

/-- Of several bodies the first is put into parentheses, as a part of the second. -/
theorem Closes.enclose {n : Nat} {v : Text} (h : Closes (n + 1) v) : Closes n ('(' :: v) := by
  cases h with
  | @next _ u v inside others =>
    have hfront : ('(' :: (u ++ ')' :: v)) = '(' :: (u ++ [')']) ++ v := by simp
    rw [hfront]
    refine others.prepend fun w _ _ hw => ?_
    have hbody := Body.parens inside hw
    rwa [List.append_cons] at hbody

/-- The first `n` characters of a text close the open braces, and then one body for every
parenthesis that is open and one more. -/
def Ended (parens braces n : Nat) (t : Text) : Prop :=
  ∃ u v w, t = u ++ (v ++ w) ∧ Closing braces u ∧ Closes parens v ∧ n = u.length + v.length

/-- Outside interpolations, what makes the first body longer is passed. -/
theorem Ended.behind {parens parens' n : Nat} {t : Text} (front : Text) (h : Ended parens 0 n t)
    (hfront : ∀ v w, t = v ++ w → Closes parens v → Closes parens' (front ++ v)) :
    Ended parens' 0 (n + front.length) (front ++ t) := by
  obtain ⟨u, v, w, rfl, hu, hv, rfl⟩ := h
  cases closing_zero_iff.mp hu
  refine ⟨[], front ++ v, w, (List.append_assoc front v w).symm, hu, hfront v w rfl hv, ?_⟩
  rw [List.length_nil, List.length_append]
  omega

/-- An interpolation is a part of the first body. -/
theorem Ended.interpolation {parens n : Nat} {t : Text} (h : Ended parens 1 n t) :
    Ended parens 0 (n + 2) ('#' :: '{' :: t) := by
  obtain ⟨u, v, w, rfl, hu, hv, rfl⟩ := h
  refine ⟨[], '#' :: '{' :: u ++ v, w, by simp, closing_zero_iff.mpr rfl, ?_, by simp⟩
  exact hv.prepend fun _ _ _ hbody => .interpolation hu hbody

/-- A character that is passed by itself, as the first of a body. -/
theorem Ended.char {parens n : Nat} {c : Char} {t : Text} (h : Ended parens 0 n t)
    (hescape : ∀ d w, c = '\\' → t = d :: w → False) (hcut : ∀ w, c = '#' → t = '{' :: w → False)
    (hopen : c ≠ '(') (hclose : c ≠ ')') : Ended parens 0 (n + 1) (c :: t) := by
  refine h.behind [c] fun v w ht hv => hv.prepend fun x y hxy hbody => .char c ?_ ?_ hbody
  · -- Something is left behind a backslash, for the parentheses that are open are closed.
    have hslash : c ≠ '\\' := by
      intro hc
      cases x with
      | nil => exact hescape _ _ hc (by rw [ht, hxy]; rfl)
      | cons d x => exact hescape _ _ hc (by rw [ht, hxy]; rfl)
    simp [hopen, hclose, hslash]
  · intro hc hhead
    obtain ⟨z, rfl⟩ := List.head?_eq_some_iff.mp hhead
    exact hcut _ hc (by rw [ht, hxy]; rfl)

/-- **What the count takes** closes the braces that are open, and then as many bodies as it has
to. -/
theorem ended_of_closingParen? {parens braces : Nat} {t : Text} {n : Nat}
    (h : closingParen? parens braces t = some n) : Ended parens braces n t := by
  fun_induction closingParen? parens braces t generalizing n with
  | case1 => cases h
  | case2 parens c t braces =>
    rename_i ih
    obtain ⟨m, hm, rfl⟩ := Option.map_eq_some_iff.mp h
    obtain ⟨u, v, w, rfl, hu, hv, rfl⟩ := ih hm
    exact ⟨c :: u, v, w, rfl, (closing_cons_iff braces c u).mpr hu, hv, by
      rw [List.length_cons]; omega⟩
  | case3 parens c t ih =>
    obtain ⟨m, hm, rfl⟩ := Option.map_eq_some_iff.mp h
    exact (ih hm).behind ['\\', c] fun _ _ _ hv => hv.prepend fun _ _ _ hbody => .escape c hbody
  | case4 parens t ih =>
    obtain ⟨m, hm, rfl⟩ := Option.map_eq_some_iff.mp h
    exact (ih hm).interpolation
  | case5 parens t ih =>
    obtain ⟨m, hm, rfl⟩ := Option.map_eq_some_iff.mp h
    exact (ih hm).behind ['('] fun _ _ _ hv => hv.enclose
  | case6 t =>
    cases h
    exact ⟨[], [')'], t, rfl, closing_zero_iff.mpr rfl, .last .nil, rfl⟩
  | case7 t parens ih =>
    obtain ⟨m, hm, rfl⟩ := Option.map_eq_some_iff.mp h
    exact (ih hm).behind [')'] fun _ _ _ hv => .next .nil hv
  | case8 parens c t hescape hcut hopen hclose ih =>
    obtain ⟨m, hm, rfl⟩ := Option.map_eq_some_iff.mp h
    exact (ih hm).char hescape hcut hopen hclose

/-! ### The end of a text in parentheses -/

/-- A text begins with a closed one exactly if its end is found, and there. -/
theorem balancedLength?_eq_some_iff {t : Text} {n : Nat} :
    t.balancedLength? = some n ↔
      ∃ front rest, t = front ++ rest ∧ Closed front ∧ front.length = n := by
  constructor
  · intro h
    obtain ⟨u, v, w, rfl, hu, hv, rfl⟩ := ended_of_closingParen? h
    cases closing_zero_iff.mp hu
    exact ⟨v, w, rfl, closes_zero_iff.mp hv, (Nat.zero_add _).symm⟩
  · rintro ⟨front, rest, rfl, hclosed, rfl⟩
    exact closingParen?_closed hclosed rest

theorem balancedLength?_append {t : Text} (h : Closed t) (v : Text) :
    (t ++ v).balancedLength? = some t.length :=
  closingParen?_closed h v

/-- A text begins with one closed text at most. -/
theorem Closed.unique {t front front' : Text} (h : Closed front) (h' : Closed front')
    (hfront : front <+: t) (hfront' : front' <+: t) : front = front' := by
  obtain ⟨rest, rfl⟩ := hfront
  obtain ⟨rest', heq⟩ := hfront'
  have hlength : some front.length = some front'.length := by
    rw [← balancedLength?_append h rest, ← heq, balancedLength?_append h' rest']
  exact (List.append_inj heq (Option.some.inj hlength).symm).1.symm

/-- In bytes the end of a closed text is where the text can be cut behind it. -/
theorem balancedBytes?_eq_some_iff {t : Text} {n : Nat} :
    balancedBytes? t = some (some n) ↔
      ∃ front rest, t.splitBytes? n = some (front, rest) ∧ Closed front := by
  rw [balancedBytes?_eq, Option.some_inj, Option.map_eq_some_iff]
  constructor
  · rintro ⟨m, hm, rfl⟩
    obtain ⟨front, rest, rfl, hclosed, rfl⟩ := balancedLength?_eq_some_iff.mp hm
    exact ⟨front, rest, by rw [List.take_left, splitBytes?_append], hclosed⟩
  · rintro ⟨front, rest, hsplit, hclosed⟩
    obtain ⟨rfl, rfl⟩ := append_of_splitBytes? hsplit
    exact ⟨front.length, balancedLength?_append hclosed rest, by rw [List.take_left]⟩

/-- Where a text does not begin with a closed one, there is no end to find. -/
theorem balancedLength?_eq_none_iff {t : Text} :
    t.balancedLength? = none ↔ ∀ front, front <+: t → ¬ Closed front := by
  rw [Option.eq_none_iff_forall_ne_some]
  constructor
  · rintro h front ⟨rest, rfl⟩ hclosed
    exact h front.length (balancedLength?_append hclosed rest)
  · intro h n hn
    obtain ⟨front, rest, rfl, hclosed, -⟩ := balancedLength?_eq_some_iff.mp hn
    exact h front (List.prefix_append front rest) hclosed

theorem balancedBytes?_eq_none_iff {t : Text} :
    balancedBytes? t = some none ↔ t.balancedLength? = none := by
  rw [balancedBytes?_eq, Option.some_inj, Option.map_eq_none_iff]

/-- What a closed text begins with, other than itself, has no end yet. -/
theorem Closed.eq_none_of_shorter {t shorter : Text} (h : Closed t) (hfirst : shorter <+: t)
    (hne : shorter ≠ t) : shorter.balancedLength? = none := by
  refine balancedLength?_eq_none_iff.mpr fun front hfront hclosed => hne ?_
  have heq : front = t := hclosed.unique h (hfront.trans hfirst) (List.prefix_refl t)
  exact hfirst.eq_of_length_le (heq ▸ hfront.length_le)

theorem closed_iff {t : Text} : Closed t ↔ t.balancedLength? = some t.length := by
  constructor
  · intro h
    simpa using balancedLength?_append h []
  · intro h
    obtain ⟨front, rest, rfl, hclosed, hlength⟩ := balancedLength?_eq_some_iff.mp h
    have hrest : rest = [] := by simpa using hlength
    rwa [hrest, List.append_nil]

instance (t : Text) : Decidable (Closed t) :=
  decidable_of_iff _ closed_iff.symm

/-- **The end of what stands in parentheses is found by counting.**  It is found behind `n`
characters, or behind `n` bytes, exactly if these are a body and the parenthesis that closes it.  A
text begins with no more than one such text.  Whatever is behind it makes no difference, and what is
shorter has no end.  No end is found exactly if the text begins with no such text. -/
theorem balancedLength?_recognises (t : Text) :
    (∀ n, t.balancedLength? = some n ↔
      ∃ front rest, t = front ++ rest ∧ Closed front ∧ front.length = n) ∧
    (∀ n, balancedBytes? t = some (some n) ↔
      ∃ front rest, t.splitBytes? n = some (front, rest) ∧ Closed front) ∧
    (∀ front : Text, front <+: t → Closed front →
      (∀ front', front' <+: t → Closed front' → front' = front) ∧
      (∀ v, (front ++ v).balancedLength? = some front.length ∧
        balancedBytes? (front ++ v) = some (some front.byteLength)) ∧
      ∀ shorter : Text, shorter <+: front → shorter ≠ front →
        shorter.balancedLength? = none ∧ balancedBytes? shorter = some none) ∧
    (t.balancedLength? = none ↔ ∀ front, front <+: t → ¬ Closed front) ∧
    (balancedBytes? t = some none ↔ ∀ front, front <+: t → ¬ Closed front) := by
  refine ⟨fun _ => balancedLength?_eq_some_iff, fun _ => balancedBytes?_eq_some_iff, ?_,
    balancedLength?_eq_none_iff, balancedBytes?_eq_none_iff.trans balancedLength?_eq_none_iff⟩
  intro front hfront hclosed
  refine ⟨fun front' hfront' h => h.unique hclosed hfront' hfront, fun v => ?_,
    fun shorter hshorter hne => ?_⟩
  · exact ⟨balancedLength?_append hclosed v,
      balancedBytes?_eq_some_iff.mpr ⟨front, v, splitBytes?_append front v, hclosed⟩⟩
  · have hnone := hclosed.eq_none_of_shorter hshorter hne
    exact ⟨hnone, balancedBytes?_eq_none_iff.mpr hnone⟩

/-- In `#{(})é)` the parenthesis that is opened is a part of the interpolation, so that the next one
closes the text. -/
theorem balancedLength?_recognises_interpolation :
    ['#', '{', '(', '}', ')'] <+: ['#', '{', '(', '}', ')', 'é', ')'] ∧
    Closed ['#', '{', '(', '}', ')'] ∧
    (∀ v : Text, balancedBytes? (['#', '{', '(', '}', ')'] ++ v) = some (some 5)) ∧
    balancedBytes? ['#', '{', '(', '}'] = some none := by
  have hfront : ['#', '{', '(', '}', ')'] <+: ['#', '{', '(', '}', ')', 'é', ')'] :=
    ⟨['é', ')'], rfl⟩
  have hclosed : Closed ['#', '{', '(', '}', ')'] := by decide
  obtain ⟨-, hbehind, hshorter⟩ :=
    (balancedLength?_recognises ['#', '{', '(', '}', ')', 'é', ')']).2.2.1 _ hfront hclosed
  exact ⟨hfront, hclosed, fun v => (hbehind v).2,
    (hshorter ['#', '{', '(', '}'] ⟨[')'], rfl⟩ (by decide)).2⟩

end Stylesheet.Text
