import Stylesheet.Proofs.OpenInterpolation

/-!
# Which interpolation a brace closes

The openings and closings of interpolations among the tokens of a lexer match like parentheses: a
closing belongs to the last opening that has as many openings as closings behind it
(`ClosesBehind`), and it belongs to no other (`ClosesBehind.unique`).  So the tokens themselves say
which interpolations are open behind them, and before which of these a string was cut short
(`Around`).
-/
namespace Stylesheet

namespace Token

theorem opened_append (ts us : List Token) : opened (ts ++ us) = opened ts + opened us :=
  List.countP_append

theorem closed_append (ts us : List Token) : closed (ts ++ us) = closed ts + closed us :=
  List.countP_append

/-- Every interpolation that some tokens open they close, and they close no other. -/
structure Balanced (ts : List Token) : Prop where
  nested : Nested ts
  settled : opened ts = closed ts

variable {ts us : List Token} {t b e : Token}

theorem balanced_nil : Balanced [] :=
  ⟨nested_nil, rfl⟩

theorem Nested.append (h : Balanced ts) (h' : Nested us) : Nested (ts ++ us) := by
  intro vs hvs
  rcases List.prefix_or_prefix_of_prefix hvs (List.prefix_append ts us) with hin | ⟨ws, rfl⟩
  · exact h.nested vs hin
  · have hws : closed ws ≤ opened ws := h' ws (List.prefix_append_right_inj ts |>.mp hvs)
    have hts := h.settled
    rw [closed_append, opened_append]
    omega

theorem Balanced.append (h : Balanced ts) (h' : Balanced us) : Balanced (ts ++ us) := by
  refine ⟨Nested.append h h'.nested, ?_⟩
  rw [opened_append, closed_append, h.settled, h'.settled]

/-- A token that neither opens nor closes an interpolation is balanced. -/
theorem balanced_single (hopen : t.kind ≠ .op .openInterpolation)
    (hclose : t.kind ≠ .op .closeInterpolation) : Balanced [t] := by
  have hopened : opened ([] ++ [t]) = 0 := opened_other [] hopen
  have hclosed : closed ([] ++ [t]) = 0 := closed_other [] hclose
  refine ⟨nested_nil.concat ?_, ?_⟩
  · rw [hclosed]
    exact Nat.zero_le _
  · exact hopened.trans hclosed.symm

/-- An interpolation around balanced tokens is balanced. -/
theorem Balanced.enclose (h : Balanced ts) (hopen : b.kind = .op .openInterpolation)
    (hclose : e.kind = .op .closeInterpolation) : Balanced (b :: (ts ++ [e])) := by
  have hb : opened [b] = 1 ∧ closed [b] = 0 :=
    ⟨opened_open [] hopen, closed_other [] (by rw [hopen]; rintro ⟨⟩)⟩
  have he : opened [e] = 0 ∧ closed [e] = 1 :=
    ⟨opened_other [] (by rw [hclose]; rintro ⟨⟩), closed_close [] hclose⟩
  have hcounts : opened (b :: (ts ++ [e])) = opened ts + 1 ∧
      closed (b :: (ts ++ [e])) = closed ts + 1 := by
    constructor
    · rw [← List.singleton_append, opened_append, opened_append]
      omega
    · rw [← List.singleton_append, closed_append, closed_append]
      omega
  have hts := h.settled
  refine ⟨fun vs hvs => ?_, by omega⟩
  -- A prefix is empty, or it is the opening with a prefix of what is enclosed, or it is everything.
  rcases List.prefix_cons_iff.mp hvs with rfl | ⟨ws, rfl, hws⟩
  · exact Nat.le_refl _
  · rcases List.prefix_concat_iff.mp hws with rfl | hin
    · omega
    · have hle := h.nested ws hin
      rw [← List.singleton_append, opened_append, closed_append]
      omega

/-- An opening with balanced tokens behind it is not inside of balanced tokens that end there. -/
theorem Balanced.not_opened_last (h : Balanced (us ++ b :: ts)) (h' : Balanced ts)
    (hopen : b.kind = .op .openInterpolation) : False := by
  have hb : opened [b] = 1 ∧ closed [b] = 0 :=
    ⟨opened_open [] hopen, closed_other [] (by rw [hopen]; rintro ⟨⟩)⟩
  have hus := h.nested us (List.prefix_append _ _)
  have hall := h.settled
  have hts := h'.settled
  rw [← List.singleton_append, opened_append, opened_append, closed_append, closed_append] at hall
  omega

end Token

/-! ### Consumed tokens -/

/-- A token that was consumed, and its place. -/
structure Consumed where
  token : Token
  /-- The place right before the token. -/
  start : Cursor
  /-- The place right behind the token. -/
  stop : Cursor
  /-- Whether the token goes on with a string behind an interpolation, so that no quote opens it. -/
  resumed : Bool

namespace Consumed

/-- The quotes of a segment of a string that stops at the opening of an interpolation. -/
def cut? (u : Consumed) : Option Quote :=
  match u.token.kind with
  | .string _ q =>
    match segmentEnd? q (u.start.rest.drop (if u.resumed then 0 else 1)) with
    | some (_, .interpolated) => some q
    | _ => none
  | _ => none

/-- The tokens without their places. -/
def tokens (us : List Consumed) : List Token :=
  us.map (·.token)

/-- The quotes of the string that the last of some tokens cuts short. -/
def cutBy (us : List Consumed) : Option Quote :=
  us.getLast?.bind cut?

@[simp] theorem tokens_append (us ws : List Consumed) :
    tokens (us ++ ws) = tokens us ++ tokens ws :=
  List.map_append

@[simp] theorem cutBy_concat (us : List Consumed) (u : Consumed) : cutBy (us ++ [u]) = u.cut? := by
  rw [cutBy, List.getLast?_concat]
  rfl

/-- The last of some tokens closes the interpolation that was opened right behind the tokens
`before`. -/
def ClosesBehind (before us : List Consumed) : Prop :=
  ∃ b inner e, us = before ++ b :: (inner ++ [e]) ∧ b.token.kind = .op .openInterpolation ∧
    e.token.kind = .op .closeInterpolation ∧ Token.Balanced (tokens inner)

theorem ClosesBehind.exists_last {before us : List Consumed} (h : ClosesBehind before us) :
    ∃ e, us.getLast? = some e ∧ e.token.kind = .op .closeInterpolation := by
  obtain ⟨b, inner, e, rfl, -, hclose, -⟩ := h
  exact ⟨e, by rw [← List.cons_append, ← List.append_assoc, List.getLast?_concat], hclose⟩

/-- **A closing belongs to one opening only.** -/
theorem ClosesBehind.unique {before before' us : List Consumed} (h : ClosesBehind before us)
    (h' : ClosesBehind before' us) : before = before' := by
  obtain ⟨b, inner, e, rfl, hopen, _, hinner⟩ := h
  obtain ⟨b', inner', e', heq, hopen', _, hinner'⟩ := h'
  have hlast : before ++ b :: inner = before' ++ b' :: inner' := by
    have hdrop := congrArg List.dropLast heq
    rwa [← List.cons_append, ← List.append_assoc, List.dropLast_concat, ← List.cons_append,
      ← List.append_assoc, List.dropLast_concat] at hdrop
  -- Of two different openings the later one would be inside of what the earlier one encloses.
  have hnone : ∀ {c c' : Consumed} {x y z : List Consumed}, c :: x = y ++ c' :: z →
      c'.token.kind = .op .openInterpolation → Token.Balanced (tokens x) →
      Token.Balanced (tokens z) → y = [] := by
    intro c c' x y z hxyz hc' hx hz
    cases y with
    | nil => rfl
    | cons d y =>
      obtain ⟨-, hx'⟩ := List.cons.inj hxyz
      rw [hx', List.append_eq, tokens_append] at hx
      exact (hx.not_opened_last hz hc').elim
  rcases List.append_eq_append_iff.mp hlast with ⟨y, rfl, hy⟩ | ⟨y, rfl, hy⟩
  · rw [hnone hy hopen' hinner hinner', List.append_nil]
  · rw [hnone hy hopen hinner' hinner, List.append_nil]

/-- The interpolations that are open behind some tokens, innermost first, each with the quotes of
the string that was cut short right before it. -/
inductive Around : List Consumed → List (Option Quote) → Prop
  | outside {us : List Consumed} (balanced : Token.Balanced (tokens us)) : Around us []
  | inside {outer inner : List Consumed} {b : Consumed} {stack : List (Option Quote)}
      (around : Around outer stack) (opens : b.token.kind = .op .openInterpolation)
      (balanced : Token.Balanced (tokens inner)) :
      Around (outer ++ b :: inner) (cutBy outer :: stack)

namespace Around

variable {us ws : List Consumed} {u : Consumed} {stack : List (Option Quote)}

theorem append (h : Around us stack) (hws : Token.Balanced (tokens ws)) :
    Around (us ++ ws) stack := by
  cases h with
  | outside balanced =>
    refine .outside ?_
    rw [tokens_append]
    exact balanced.append hws
  | inside around opens balanced =>
    rw [List.append_assoc, List.cons_append]
    refine .inside around opens ?_
    rw [tokens_append]
    exact balanced.append hws

theorem other (h : Around us stack) (hopen : u.token.kind ≠ .op .openInterpolation)
    (hclose : u.token.kind ≠ .op .closeInterpolation) : Around (us ++ [u]) stack :=
  h.append (Token.balanced_single hopen hclose)

theorem opening (h : Around us stack) (hopen : u.token.kind = .op .openInterpolation) :
    Around (us ++ [u]) (cutBy us :: stack) :=
  .inside h hopen Token.balanced_nil

/-- A closing takes the innermost interpolation away, and says what was cut short before it. -/
theorem closing {q : Option Quote} (h : Around us (q :: stack))
    (hclose : u.token.kind = .op .closeInterpolation) :
    Around (us ++ [u]) stack ∧ ∃ before, ClosesBehind before (us ++ [u]) ∧ cutBy before = q := by
  cases h with
  | @inside outer inner b _ around opens balanced =>
    have hshape : outer ++ b :: inner ++ [u] = outer ++ b :: (inner ++ [u]) := by simp
    have henclosed : Token.Balanced (tokens (b :: (inner ++ [u]))) := by
      simpa [tokens] using balanced.enclose opens hclose
    refine ⟨?_, outer, ⟨b, inner, u, hshape, opens, hclose, balanced⟩, rfl⟩
    rw [hshape]
    exact around.append henclosed

end Around
end Consumed
end Stylesheet
