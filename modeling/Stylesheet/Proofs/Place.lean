import Stylesheet.Text.Trivia
import Stylesheet.Text.Cursor

/-!
# Places ahead of others

Whatever reads a text moves its cursor forward, so the places it reaches lie ahead of the place it
started from (`Cursor.Before`).  Two such places have a text between them: it is what the first
has in front of the rest of the second, and it is what `Cursor.textSince` reads backwards.
-/
namespace Stylesheet

theorem Location.line_le_step (l : Location) (c : Char) : l.line ≤ (l.step c).line := by
  unfold step
  split
  · exact Nat.le_succ _
  · exact Nat.le_refl _

/-- Behind a text the line is as many further as there are newlines in it. -/
theorem Location.line_after (l : Location) (t : Text) :
    (l.after t).line = l.line + t.count '\n' := by
  induction t generalizing l with
  | nil => rfl
  | cons c t ih =>
    rw [after_cons, ih, step, List.count_cons]
    by_cases hc : c = '\n'
    · rw [if_pos hc, if_pos (beq_iff_eq.mpr hc), Nat.add_right_comm, Nat.add_assoc]
    · rw [if_neg hc, if_neg (mt beq_iff_eq.mp hc)]
      rfl

theorem Location.line_le_after (l : Location) (t : Text) : l.line ≤ (l.after t).line := by
  rw [line_after]
  exact Nat.le_add_right _ _

namespace Cursor

/-- The second place is the first, moved forward. -/
def Before (c d : Cursor) : Prop :=
  ∃ n, d = c.advance n

@[simp] theorem advance_zero (c : Cursor) : c.advance 0 = c :=
  Cursor.ext (by simp [advance]) (by simp) (by simp)

/-- Moving past the end of the text is moving to its end. -/
theorem advance_min (n : Nat) (c : Cursor) : c.advance (min n c.rest.length) = c.advance n := by
  have htake : c.rest.take (min n c.rest.length) = c.rest.take n := by
    rw [← List.take_take, List.take_length]
  have hdrop : c.rest.drop (min n c.rest.length) = c.rest.drop n := by
    rcases Nat.le_total n c.rest.length with h | h
    · rw [Nat.min_eq_left h]
    · rw [Nat.min_eq_right h, List.drop_length, List.drop_eq_nil_of_le h]
  apply Cursor.ext
  · simp [advance, htake]
  · simp [hdrop]
  · simp [htake]

variable {c d e : Cursor}

theorem Before.refl (c : Cursor) : c.Before c :=
  ⟨0, (advance_zero c).symm⟩

theorem before_advance (n : Nat) (c : Cursor) : c.Before (c.advance n) :=
  ⟨n, rfl⟩

theorem Before.trans (h : c.Before d) (h' : d.Before e) : c.Before e := by
  obtain ⟨n, rfl⟩ := h
  obtain ⟨m, rfl⟩ := h'
  exact ⟨n + m, advance_advance n m c⟩

theorem Before.advance (h : c.Before d) (n : Nat) : c.Before (d.advance n) :=
  h.trans (before_advance n d)

theorem Before.skip (h : c.Before d) (form : Recognizer) : c.Before (d.skip form) := by
  unfold Cursor.skip Cursor.pass?
  cases form d.rest with
  | none => exact h
  | some n => exact h.advance n

/-- The text between a place and one ahead of it. -/
theorem Before.exists_text (h : c.Before d) :
    ∃ t : Text, c.rest = t ++ d.rest ∧ d = c.advance t.length := by
  obtain ⟨n, rfl⟩ := h
  refine ⟨c.rest.take n, (List.take_append_drop n c.rest).symm, ?_⟩
  rw [List.length_take, advance_min]

/-- What was passed of a text is behind the place it leads to. -/
theorem rest_advance_append {t u : Text} (h : c.rest = t ++ u) :
    (c.advance t.length).rest = u := by
  rw [rest_advance, h, List.drop_left]

theorem rest_advance_cons {x : Char} {u : Text} (h : c.rest = x :: u) : (c.advance 1).rest = u := by
  rw [rest_advance, h, List.drop_one, List.tail_cons]

theorem Before.left_le (h : c.Before d) : d.left ≤ c.left := by
  obtain ⟨n, rfl⟩ := h
  exact Nat.sub_le c.left n

/-- Two places ahead of one are the same if the same text is left. -/
theorem Before.eq_of_left (h : c.Before d) (h' : c.Before e) (hleft : d.left = e.left) : d = e := by
  obtain ⟨t, ht, hd⟩ := h.exists_text
  obtain ⟨u, hu, he⟩ := h'.exists_text
  have hlen : t.length = u.length := by
    have h1 := congrArg List.length ht
    have h2 := congrArg List.length hu
    rw [List.length_append, ← d.left_eq] at h1
    rw [List.length_append, ← e.left_eq] at h2
    omega
  rw [hd, he, hlen]

/-- Of two places ahead of one, the one with less to read lies ahead of the other. -/
theorem Before.of_left_le (h : c.Before d) (h' : c.Before e) (hleft : e.left ≤ d.left) :
    d.Before e := by
  obtain ⟨t, ht, hd⟩ := h.exists_text
  obtain ⟨u, hu, he⟩ := h'.exists_text
  have hlen : t.length ≤ u.length := by
    have h1 := congrArg List.length ht
    have h2 := congrArg List.length hu
    rw [List.length_append, ← d.left_eq] at h1
    rw [List.length_append, ← e.left_eq] at h2
    omega
  refine ⟨u.length - t.length, ?_⟩
  rw [hd, advance_advance, Nat.add_sub_cancel' hlen, ← he]

theorem offset_advance (n : Nat) (c : Cursor) :
    (c.advance n).offset = c.offset + Text.byteLength (c.rest.take n) := by
  rw [offset, location_advance, Location.after_offset, offset]

theorem Before.offset_le (h : c.Before d) : c.offset ≤ d.offset := by
  obtain ⟨n, rfl⟩ := h
  rw [offset_advance]
  exact Nat.le_add_right _ _

/-- Moving forward never goes back to an earlier line. -/
theorem Before.line_le (h : c.Before d) : c.line ≤ d.line := by
  obtain ⟨n, rfl⟩ := h
  exact Location.line_le_after _ _

/-- Moving forward moves the offset, unless nothing is passed. -/
theorem Before.eq_of_offset_le (h : c.Before d) (hle : d.offset ≤ c.offset) : c = d := by
  obtain ⟨t, ht, rfl⟩ := h.exists_text
  cases t with
  | nil => exact (advance_zero c).symm
  | cons x t =>
    have hpos := Char.utf8Size_pos x
    rw [offset_advance, ht, List.take_left, Text.byteLength_cons] at hle
    omega

/-- A place ahead of another with less to read is behind more bytes. -/
theorem Before.offset_lt (h : c.Before d) (hleft : d.left < c.left) : c.offset < d.offset := by
  refine Nat.lt_of_not_le fun hle => ?_
  rw [← h.eq_of_offset_le hle] at hleft
  exact Nat.lt_irrefl _ hleft

/-- Of two places ahead of one, the one behind more bytes has less to read. -/
theorem Before.left_lt (h : c.Before d) (h' : c.Before e) (hlt : d.offset < e.offset) :
    e.left < d.left :=
  Nat.lt_of_not_le fun hle => Nat.not_le_of_lt hlt (h'.of_left_le h hle).offset_le

/-- The place behind a text is another one, and the last character of the text is right before
it. -/
theorem advance_ne {t u : Text} {x : Char} (h : c.rest = t ++ x :: u) :
    c ≠ c.advance (t.length + 1) := by
  intro heq
  have hleft := congrArg Cursor.left heq
  have hlength := c.left_eq
  rw [h, List.length_append, List.length_cons] at hlength
  replace hleft : c.left = c.left - (t.length + 1) := hleft
  omega

theorem past_advance_head? {t u : Text} {x : Char} (h : c.rest = t ++ x :: u) :
    (c.advance (t.length + 1)).past.head? = some x := by
  show ((c.rest.take (t.length + 1)).reverse ++ c.past).head? = some x
  have htake : c.rest.take (t.length + 1) = t ++ [x] := by
    rw [h, ← List.singleton_append, ← List.append_assoc]
    exact List.take_left' (by simp)
  rw [htake, List.reverse_append]
  rfl

/-- Of two places ahead of one, either lies ahead of the other. -/
theorem Before.total (h : c.Before d) (h' : c.Before e) : d.Before e ∨ e.Before d := by
  rcases Nat.le_total e.left d.left with hle | hle
  · exact .inl (h.of_left_le h' hle)
  · exact .inr (h'.of_left_le h hle)

/-! ### The text since a place -/

theorem textSince_back (r past behind : Text) :
    textSince.back (r ++ past) r.byteLength behind = r.reverse ++ behind := by
  induction r generalizing behind with
  | nil => cases past <;> rfl
  | cons x r ih =>
    have hpos : 0 < x.utf8Size := Char.utf8Size_pos x
    obtain ⟨k, hk⟩ : ∃ k, x.utf8Size + Text.byteLength r = k + 1 :=
      ⟨x.utf8Size + Text.byteLength r - 1, by omega⟩
    rw [Text.byteLength_cons, hk, List.cons_append, textSince.back,
      show k + 1 - x.utf8Size = Text.byteLength r by omega, ih]
    simp

theorem byteLength_reverse (t : Text) : Text.byteLength t.reverse = Text.byteLength t := by
  induction t with
  | nil => rfl
  | cons x t ih => simp [ih, Nat.add_comm]

/-- Reading backwards gives the text that was passed. -/
theorem textSince_advance (n : Nat) (c : Cursor) :
    (c.advance n).textSince c = c.rest.take n := by
  rw [textSince, offset_advance, Nat.add_sub_cancel_left, ← byteLength_reverse, Cursor.advance,
    textSince_back, List.reverse_reverse, List.append_nil]

/-- A place ahead of another has behind it the text between the two. -/
theorem Before.rest_eq (h : c.Before d) : c.rest = d.textSince c ++ d.rest := by
  obtain ⟨n, rfl⟩ := h
  rw [textSince_advance, rest_advance, List.take_append_drop]

/-- The text between two places is divided by a place between them. -/
theorem Before.textSince_append (h : c.Before d) (h' : d.Before e) :
    e.textSince c = d.textSince c ++ e.textSince d := by
  refine (List.append_left_inj e.rest).mp ?_
  rw [List.append_assoc, ← h'.rest_eq, ← h.rest_eq, ← (h.trans h').rest_eq]

/-- What lies between two places is a part of what lies between two others around them. -/
theorem Before.infix_textSince {f : Cursor} (h : c.Before d) (hde : d.Before e) (h' : e.Before f) :
    e.textSince d <:+: f.textSince c := by
  rw [(h.trans hde).textSince_append h', h.textSince_append hde]
  exact List.infix_append _ _ _

/-- A place is no text away from itself and from the places before it. -/
theorem Before.textSince_eq_nil (h : c.Before d) : c.textSince d = [] := by
  rw [textSince, Nat.sub_eq_zero_of_le h.offset_le]
  cases c.past <;> rfl

/-- Two places ahead of one are the same if the same text lies before them. -/
theorem Before.eq_of_textSince (h : c.Before d) (h' : c.Before e)
    (htext : d.textSince c = e.textSince c) : d = e := by
  have hrest : d.rest = e.rest := by
    have hd := h.rest_eq
    rw [htext] at hd
    exact List.append_cancel_left (hd.symm.trans h'.rest_eq)
  exact h.eq_of_left h' (by rw [d.left_eq, e.left_eq, hrest])

end Cursor
end Stylesheet
