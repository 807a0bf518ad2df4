import Mathlib.Data.List.Basic
import Stylesheet.Text.Escape

/-!
# Which backslashes an unescaped text keeps before a digit

A later stage finds the escapes of numbers in an unescaped text by looking for a backslash that a
digit of base sixteen follows.  The characters of that text keep their order and each of them
stands somewhere in the source (`kept`), so its backslashes can be compared with the escapes of the
source (`escapes`), place by place.  `marks_of_unescape` says which backslashes are followed by a
digit: those of the escapes of numbers, and the escaped backslashes that had a digit right behind
them.  The later stage cannot tell these from the others.
-/
namespace Stylesheet.Text

/-- A backslash that escapes a character: where it stands, the character, and the text behind. -/
structure Escape where
  place : Nat
  char : Char
  behind : Text
deriving Repr, DecidableEq

namespace Escape

/-- The escape starts the number of a character. -/
def isNumber (e : Escape) : Bool :=
  isHexDigit e.char

/-- An escaped backslash right before a digit. -/
def exposes (e : Escape) : Bool :=
  e.char == '\\' && e.behind.head?.any isHexDigit

/-- The place of the backslash that the escape leaves before a digit. -/
def mark? (e : Escape) : Option Nat :=
  if e.isNumber then some e.place else if e.exposes then some (e.place + 1) else none

end Escape

/-- The escapes of a text that starts at a place, read from left to right. -/
def escapes : Nat → Text → List Escape
  | n, '\\' :: c :: t => ⟨n, c, t⟩ :: escapes (n + 2) t
  | n, _ :: t => escapes (n + 1) t
  | _, [] => []

/-- The characters that unescaping keeps of a text that starts at a place, with their places. -/
def kept : Nat → Text → List (Nat × Char)
  | n, '\\' :: c :: t =>
    if isHexDigit c then (n, '\\') :: (n + 1, c) :: kept (n + 2) t else (n + 1, c) :: kept (n + 2) t
  | n, c :: t => (n, c) :: kept (n + 1) t
  | _, [] => []

/-- The places of the backslashes that a digit of base sixteen follows. -/
def numberMarks : List (Nat × Char) → List Nat
  | (n, c) :: u =>
    if c = '\\' ∧ u.head?.any (isHexDigit ·.2) then n :: numberMarks u else numberMarks u
  | [] => []

/-- The places of the backslashes that start the number of a character. -/
def numberEscapes (t : Text) : List Nat :=
  ((escapes 0 t).filter (·.isNumber)).map (·.place)

/-! ### What is kept -/

theorem isHexDigit_ne_backslash {c : Char} (h : isHexDigit c = true) : c ≠ '\\' := by
  rintro rfl
  exact absurd h (by decide)

theorem kept_eq_unescape (n : Nat) (t : Text) : (kept n t).map Prod.snd = unescape t := by
  induction n, t using escapes.induct with
  | case1 n c t ih =>
    rw [kept, unescape]
    split
    · rw [List.map_cons, List.map_cons, ih]
    · rw [List.map_cons, ih]
  | case2 n c t hc ih => rw [kept.eq_2 n c t hc, unescape.eq_2 c t hc, List.map_cons, ih]
  | case3 n => rfl

/-- A character that is kept is one of the text, and it stands there. -/
theorem getElem?_of_kept {n : Nat} {t : Text} {p : Nat × Char} (h : p ∈ kept n t) :
    ∃ k, p.1 = n + k ∧ t[k]? = some p.2 := by
  induction n, t using escapes.induct with
  | case1 n c t ih =>
    have hbehind : p ∈ kept (n + 2) t → ∃ k, p.1 = n + k ∧ ('\\' :: c :: t)[k]? = some p.2 := by
      intro hp
      obtain ⟨k, hplace, hk⟩ := ih hp
      exact ⟨k + 2, by omega, by rw [List.getElem?_cons_succ, List.getElem?_cons_succ, hk]⟩
    rw [kept] at h
    split at h
    · rcases List.mem_cons.mp h with rfl | h
      · exact ⟨0, rfl, rfl⟩
      · rcases List.mem_cons.mp h with rfl | h
        · exact ⟨1, rfl, rfl⟩
        · exact hbehind h
    · rcases List.mem_cons.mp h with rfl | h
      · exact ⟨1, rfl, rfl⟩
      · exact hbehind h
  | case2 n c t hc ih =>
    rw [kept.eq_2 n c t hc] at h
    rcases List.mem_cons.mp h with rfl | h
    · exact ⟨0, rfl, rfl⟩
    · obtain ⟨k, hplace, hk⟩ := ih h
      exact ⟨k + 1, by omega, by rw [List.getElem?_cons_succ, hk]⟩
  | case3 n => cases h

theorem le_of_kept {n : Nat} {t : Text} {p : Nat × Char} (h : p ∈ kept n t) : n ≤ p.1 := by
  obtain ⟨k, hplace, -⟩ := getElem?_of_kept h
  omega

/-- The characters that are kept stand in the order they had. -/
theorem pairwise_kept (n : Nat) (t : Text) : (kept n t).Pairwise fun p q => p.1 < q.1 := by
  induction n, t using escapes.induct with
  | case1 n c t ih =>
    have hbehind : ∀ p ∈ kept (n + 2) t, n + 1 < p.1 := fun p hp => le_of_kept hp
    rw [kept]
    split
    · refine .cons (fun p hp => ?_) (.cons hbehind ih)
      rcases List.mem_cons.mp hp with rfl | hp
      · exact Nat.lt_succ_self n
      · exact Nat.lt_of_succ_lt (hbehind p hp)
    · exact .cons hbehind ih
  | case2 n c t hc ih =>
    rw [kept.eq_2 n c t hc]
    exact .cons (fun p hp => le_of_kept hp) ih
  | case3 n => exact .nil

/-! ### Backslashes before a digit -/

/-- What is kept starts with a digit only where the text does. -/
theorem head?_kept (n : Nat) (t : Text) :
    (kept n t).head?.any (isHexDigit ·.2) = t.head?.any isHexDigit := by
  fun_cases kept n t with
  | case1 n c t hdigit => rfl
  | case2 n c t hdigit => exact Bool.eq_false_iff.mpr hdigit
  | case3 n c t hc => rfl
  | case4 n => rfl

theorem numberMarks_cons {n : Nat} {c : Char} (h : c ≠ '\\') (u : List (Nat × Char)) :
    numberMarks ((n, c) :: u) = numberMarks u := by
  rw [numberMarks, if_neg fun hc => h hc.1]

/-- Every escape leaves its own backslash before a digit, or none. -/
theorem numberMarks_kept (n : Nat) (t : Text) :
    numberMarks (kept n t) = (escapes n t).filterMap (·.mark?) := by
  induction n, t using escapes.induct with
  | case1 n c t ih =>
    rw [kept, escapes, List.filterMap_cons, Escape.mark?, ← ih]
    by_cases hdigit : isHexDigit c = true
    · rw [if_pos hdigit, Escape.isNumber, if_pos hdigit, numberMarks, if_pos ⟨rfl, hdigit⟩,
        numberMarks_cons (isHexDigit_ne_backslash hdigit)]
    · rw [if_neg hdigit, Escape.isNumber, if_neg hdigit, numberMarks, head?_kept]
      by_cases hexposes : c = '\\' ∧ t.head?.any isHexDigit = true
      · rw [if_pos hexposes, if_pos (by simpa [Escape.exposes] using hexposes)]
      · rw [if_neg hexposes, if_neg (by simpa [Escape.exposes] using hexposes)]
  | case2 n c t hc ih =>
    rw [kept.eq_2 n c t hc, escapes.eq_2 n c t hc, ← ih]
    by_cases hescape : c = '\\'
    · -- A backslash that escapes nothing ends the text.
      cases t with
      | nil => rw [kept, numberMarks, if_neg fun h => Bool.false_ne_true h.2]
      | cons d t => exact absurd rfl (hc d t hescape)
    · exact numberMarks_cons hescape _
  | case3 n => rfl

/-- A digit is no backslash, so an escape of a number exposes none. -/
theorem Escape.exposes_of_isNumber {e : Escape} (h : e.isNumber = true) : e.exposes = false := by
  rw [Escape.exposes, beq_false_of_ne (isHexDigit_ne_backslash h), Bool.false_and]

/-- Every exposed backslash is one more before a digit. -/
theorem length_marks (es : List Escape) :
    (es.filterMap (·.mark?)).length =
      (es.filter (·.isNumber)).length + es.countP (·.exposes) := by
  induction es with
  | nil => rfl
  | cons e es ih =>
    rw [List.filterMap_cons, List.filter_cons, List.countP_cons, Escape.mark?]
    by_cases hnumber : e.isNumber = true
    · rw [if_pos hnumber, if_pos hnumber, Escape.exposes_of_isNumber hnumber, List.length_cons,
        List.length_cons, ih, if_neg Bool.false_ne_true]
      omega
    · rw [if_neg hnumber, if_neg hnumber]
      by_cases hexposes : e.exposes = true
      · rw [if_pos hexposes, if_pos hexposes, List.length_cons, ih]
        omega
      · rw [if_neg hexposes, if_neg hexposes, ih]
        rfl

/-- The backslashes before a digit are those of the escapes of numbers exactly when none is
exposed. -/
theorem marks_eq_iff (es : List Escape) :
    es.filterMap (·.mark?) = (es.filter (·.isNumber)).map (·.place) ↔
      es.any (·.exposes) = false := by
  constructor
  · intro h
    have hcount := length_marks es
    rw [h, List.length_map] at hcount
    have hnone : es.countP (·.exposes) = 0 := by omega
    rw [List.any_eq_false]
    exact List.countP_eq_zero.mp hnone
  · intro h
    rw [List.any_eq_false] at h
    rw [← List.filterMap_eq_map, List.filterMap_filter]
    apply List.filterMap_congr
    intro e he
    rw [Escape.mark?, if_neg (h e he)]
    rfl

/-- **Which backslashes are followed by a digit once a text is unescaped.**  The unescaped text
consists of characters of the text in their order.  Its backslashes before a digit are, in order,
those of the escapes of numbers together with each escaped backslash that a digit follows.  So they
are exactly those of the escapes of numbers as long as no escaped backslash is followed by a
digit, and never otherwise. -/
theorem marks_of_unescape (t : Text) :
    (kept 0 t).map Prod.snd = unescape t ∧
    (∀ p ∈ kept 0 t, t[p.1]? = some p.2) ∧
    ((kept 0 t).Pairwise fun p q => p.1 < q.1) ∧
    numberMarks (kept 0 t) = (escapes 0 t).filterMap (·.mark?) ∧
    (numberMarks (kept 0 t) = numberEscapes t ↔ (escapes 0 t).any (·.exposes) = false) := by
  refine ⟨kept_eq_unescape 0 t, fun p hp => ?_, pairwise_kept 0 t, numberMarks_kept 0 t, ?_⟩
  · obtain ⟨k, hplace, hk⟩ := getElem?_of_kept hp
    rwa [hplace, Nat.zero_add]
  · rw [numberMarks_kept]
    exact marks_eq_iff _

/-- The escaped backslash of a text without any escape of a number comes out before a digit, so the
text reads like another one that is such an escape. -/
theorem number_of_escaped_backslash :
    numberEscapes ['\\', '\\', '4', '1'] = [] ∧
    numberMarks (kept 0 ['\\', '\\', '4', '1']) = [1] ∧
    unescape ['\\', '\\', '4', '1'] = unescape ['\\', '4', '1'] := by
  decide

end Stylesheet.Text
