import Stylesheet.Proofs.Enclosure
import Stylesheet.Proofs.Lookahead
import Stylesheet.Proofs.Seam
import Stylesheet.Proofs.Word

/-!
# Arguments

An argument is made of words, whole numbers, strings, groups in parentheses and interpolations, with
a space between each two.  Groups and interpolations hold arguments again, with commas between them
(`Atom`, `Argument`, `Arguments`).  Whether a comma or a closing parenthesis belongs to an argument
or to the list around it, an expression tells from what is open there.  In a group or an
interpolation something is open, so everything in it belongs to the argument, and behind it as much
is open as before (`Lexer.spans_argument`).  An expression therefore takes a whole argument and
stops right behind it (`Grammar.expression_of_argument`).
-/
namespace Stylesheet

open Recognizer

/-! ### What an argument is -/

mutual

/-- A part of an argument. -/
inductive Atom
  | word (name : Text) (ascii : Text.isAsciiName.starts name = true)
  | number (negative : Bool) (digits : Text)
      (decimal : digits ≠ [] ∧ ∀ d ∈ digits, d.isDigit = true)
  /-- A text in double quotes that holds nothing with a meaning in strings. -/
  | string (value : Text) (plain : ∀ x ∈ value, x ≠ '"' ∧ x ≠ '\\' ∧ x ≠ '#')
  | group (inner : Arguments)
  | interpolation (inner : Arguments)

/-- One part or more. -/
inductive Argument
  | last (a : Atom)
  | more (a : Atom) (others : Argument)

/-- One argument or more. -/
inductive Arguments
  | last (e : Argument)
  | more (e : Argument) (others : Arguments)

end

mutual

/-- The source of a part. -/
def Atom.source : Atom → Text
  | .word name _ => name
  | .number negative digits _ => if negative then '-' :: digits else digits
  | .string value _ => '"' :: (value ++ ['"'])
  | .group inner => '(' :: (inner.source ++ [')'])
  | .interpolation inner => '#' :: '{' :: (inner.source ++ ['}'])

/-- The source of an argument: its parts with spaces between them. -/
def Argument.source : Argument → Text
  | .last a => a.source
  | .more a others => a.source ++ ' ' :: others.source

/-- The source of arguments in a group: commas and spaces stand between them. -/
def Arguments.source : Arguments → Text
  | .last e => e.source
  | .more e others => e.source ++ ',' :: ' ' :: others.source

end

/-- A word and a group, with a number in the group and a string in an interpolation. -/
example :
    let number : Argument := .last (.number true ['1'] (by simp))
    let string : Argument := .last (.string ['b'] (by simp))
    let inner : Arguments := .more number (.last (.last (.interpolation (.last string))))
    (Argument.more (.word ['a'] rfl) (.last (.group inner))).source =
      "a (-1, #\x7b\"b\"\x7d)".toList := rfl

theorem Atom.length_source_group (inner : Arguments) :
    (Atom.group inner).source.length = 1 + (inner.source.length + 1) := by
  rw [source, List.length_cons, List.length_append, List.length_singleton, Nat.add_comm]

theorem Atom.length_source_interpolation (inner : Arguments) :
    (Atom.interpolation inner).source.length = 2 + (inner.source.length + 1) := by
  rw [source, List.length_cons, List.length_cons, List.length_append, List.length_singleton]
  omega

theorem Argument.length_source_more (a : Atom) (others : Argument) :
    (Argument.more a others).source.length = a.source.length + (1 + others.source.length) := by
  rw [source, List.length_append, List.length_cons, Nat.add_comm 1]

theorem Arguments.length_source_more (e : Argument) (others : Arguments) :
    (Arguments.more e others).source.length =
      e.source.length + (1 + (1 + others.source.length)) := by
  rw [source, List.length_append, List.length_cons, List.length_cons]
  omega

/-! ### How an argument begins -/

/-- A text that neither white space, nor a slash, nor a closing parenthesis begins. -/
def Text.Begun (t : Text) : Prop :=
  ∃ x u, t = x :: u ∧ isBlank x = false ∧ x ≠ '/' ∧ x ≠ ')'

theorem Text.Begun.append {t : Text} (h : t.Begun) (u : Text) : (t ++ u).Begun := by
  obtain ⟨x, v, rfl, hx⟩ := h
  exact ⟨x, v ++ u, rfl, hx⟩

theorem Text.Begun.trivia {t : Text} (h : t.Begun) : Recognizer.trivia t = none := by
  obtain ⟨x, v, rfl, hblank, hslash, -⟩ := h
  exact trivia_eq_none hblank hslash

theorem isAsciiBody_of_digit {d : Char} (h : d.isDigit = true) : isAsciiBody d = true := by
  rw [isAsciiBody, Char.isAlphanum, h, Bool.or_true, Bool.true_or, Bool.true_or]

theorem Atom.begun (a : Atom) : a.source.Begun := by
  cases a with
  | word name ascii =>
    obtain ⟨c, v, rfl, hc, -⟩ := Text.exists_of_starts ascii
    exact ⟨c, v, rfl, isBlank_of_ascii (isAsciiBody_of_start hc), ne_of_start hc (by decide),
      ne_of_start hc (by decide)⟩
  | number negative digits decimal =>
    obtain ⟨d, v, rfl⟩ := List.exists_cons_of_ne_nil decimal.1
    have hd := isAsciiBody_of_digit (decimal.2 d List.mem_cons_self)
    cases negative with
    | false =>
      exact ⟨d, v, rfl, isBlank_of_ascii hd, ne_of_body hd (by decide), ne_of_body hd (by decide)⟩
    | true => exact ⟨'-', d :: v, rfl, by decide⟩
  | string => exact ⟨'"', _, rfl, by decide⟩
  | group => exact ⟨'(', _, rfl, by decide⟩
  | interpolation => exact ⟨'#', _, rfl, by decide⟩

theorem Argument.begun (e : Argument) : e.source.Begun := by
  cases e with
  | last a => exact a.begun
  | more a others => exact a.begun.append _

theorem Arguments.begun (es : Arguments) : es.source.Begun := by
  cases es with
  | last e => exact e.begun
  | more e others => exact e.begun.append _

/-! ### Numbers and strings -/

namespace Lexeme

section
variable {digits u : Text} {z : Char} (hne : digits ≠ []) (hdigits : ∀ d ∈ digits, d.isDigit = true)
  (hz : z ∈ wordEnds)
include hne hdigits hz

/-- Digits are a whole number where no point, no digit and no unit follows. -/
theorem unsigned?_integer (negative : Bool) :
    unsigned? negative (digits ++ z :: u) =
      some ⟨.number (.ofDecimal negative digits []) none,
        (if negative then 1 else 0) + digits.length, none⟩ := by
  have hdigit : isDecimalDigit z = false :=
    of_wordEnd (p := fun z => isDecimalDigit z = false) hz (by decide +kernel)
  have hpoint : '.' ≠ z := of_wordEnd hz (by decide)
  have hunit : (z.isAlpha || z == '%') = false :=
    of_wordEnd (p := fun z => (z.isAlpha || z == '%') = false) hz (by decide)
  have hall : ∀ d ∈ digits, isDecimalDigit d = true := by
    intro d hd
    rw [isDecimalDigit, hdigits d hd, Bool.true_or]
  have hstop : ¬ isDecimalDigit z = true := by
    rw [hdigit]
    exact Bool.false_ne_true
  have hwhole : (digits ++ z :: u).takeWhile isDecimalDigit = digits := by
    rw [List.takeWhile_append_of_pos hall, List.takeWhile_cons_of_neg hstop, List.append_nil]
  have hfraction : fraction (digits ++ z :: u) = [] := by
    refine fraction_of_no_point fun r hr => hpoint ?_
    rw [List.dropWhile_append_of_pos hall, List.dropWhile_cons_of_neg hstop] at hr
    exact (List.cons.inj hr).1.symm
  have hsize : numberSize (digits ++ z :: u) = digits.length := by
    rw [numberSize, hwhole, hfraction]
    rfl
  have hnone : unit (digits ++ z :: u) = [] := by
    rw [unit, hsize, List.drop_left,
      List.takeWhile_cons_of_neg (by rw [hunit]; exact Bool.false_ne_true)]
  rw [unsigned?, hwhole, hfraction, hsize, hnone, if_neg (by simpa using hne)]
  rfl

/-- Digits behind a sign or without one are a token. -/
theorem at?_integer (inside negative : Bool) :
    at? inside ((if negative then '-' :: digits else digits) ++ z :: u) =
      some ⟨.number (.ofDecimal negative digits []) none,
        (if negative then '-' :: digits else digits).length, none⟩ := by
  obtain ⟨d, v, hdv⟩ := List.exists_cons_of_ne_nil hne
  have hd : d.isDigit = true := hdigits d (hdv ▸ List.mem_cons_self)
  obtain ⟨x, w, hcons, hx⟩ :
      ∃ x w, (if negative then '-' :: digits else digits) ++ z :: u = x :: w ∧
      isAsciiBody x = true := by
    cases negative with
    | false => exact ⟨d, v ++ z :: u, by rw [hdv]; rfl, isAsciiBody_of_digit hd⟩
    | true => exact ⟨'-', digits ++ z :: u, rfl, by decide⟩
  have hnumber : number? (x :: w) = some ⟨.number (.ofDecimal negative digits []) none,
      (if negative then '-' :: digits else digits).length, none⟩ := by
    have hinteger := unsigned?_integer (u := u) hne hdigits hz negative
    rw [← hcons, number?_eq]
    cases negative with
    | false =>
      have hhyphen : (digits ++ z :: u).head? ≠ some '-' := by
        rw [hdv]
        rintro ⟨⟩
        cases hd
      rw [if_neg Bool.false_ne_true, if_neg hhyphen, hinteger]
      simp
    | true =>
      rw [if_pos rfl, List.cons_append, List.head?_cons, if_pos rfl, List.drop_one,
        List.tail_cons, hinteger]
      simp [Nat.add_comm]
  have hreference : reference? (x :: w) = none := by
    rw [reference?, if_neg]
    rintro (rfl | rfl) <;> cases hx
  have hstring : ∀ q, string? q (x :: w) = none := by
    intro q
    rw [string?, if_neg]
    rintro rfl
    cases q <;> cases hx
  rw [hcons, at?, leading?, hreference, hstring, hstring, hnumber]
  rfl

end

/-- A text without anything to quote is quoted as it is. -/
theorem escape_of_plain {q : Quote} {value : Text}
    (h : ∀ x ∈ value, x ≠ q.char ∧ x ≠ '\\' ∧ x ≠ '#') : value.escape q = value := by
  induction value with
  | nil => rfl
  | cons x value ih =>
    obtain ⟨hquote, hbackslash, hhash⟩ := h x List.mem_cons_self
    have hplain : Text.escapeChar q x = [x] :=
      if_neg (not_or.mpr ⟨hbackslash, not_or.mpr ⟨hquote, hhash⟩⟩)
    have hothers : Text.escape q value = value := ih fun y hy => h y (List.mem_cons_of_mem x hy)
    rw [Text.escape, List.flatMap_cons, ← Text.escape, hplain, hothers]
    rfl

/-- Such a text in double quotes is a token. -/
theorem at?_plainString (inside : Bool) {value : Text}
    (h : ∀ x ∈ value, x ≠ '"' ∧ x ≠ '\\' ∧ x ≠ '#') (u : Text) :
    at? inside ('"' :: (value ++ '"' :: u)) =
      some ⟨.string value .double, value.length + 2, none⟩ := by
  have hsegment := segment?_closed .double value u
  rw [escape_of_plain (q := .double) h] at hsegment
  exact at?_string inside .double _ hsegment

end Lexeme

/-! ### What is open -/

/-- Behind the first token something is open in an argument, and the second one closes it. -/
def Grammar.Brackets (t t' : Token) : Prop :=
  ∀ n : Nesting, ∃ n' : Nesting, n.after .argument t = some n' ∧ n'.isOutermost = false ∧
    n'.after .argument t' = some n

namespace Grammar

variable {t t' : Token}

theorem brackets_parens (ht : t.kind = .op .openParen) (ht' : t'.kind = .op .closeParen) :
    Brackets t t' := by
  intro n
  have hinner : ({ n with parens := n.parens + 1 } : Nesting).isOutermost = false := by
    simp [Nesting.isOutermost]
  refine ⟨{ n with parens := n.parens + 1 }, ?_, hinner, ?_⟩
  · rw [Nesting.after, ht]
  · rw [Nesting.after, ht']
    simp only [hinner, Bool.false_eq_true, if_false, Nat.add_sub_cancel]

theorem brackets_interpolation (ht : t.kind = .op .openInterpolation)
    (ht' : t'.kind = .op .closeInterpolation) : Brackets t t' := by
  intro n
  refine ⟨{ n with interpolations := n.interpolations + 1 }, ?_, ?_, ?_⟩
  · rw [Nesting.after, ht]
  · simp [Nesting.isOutermost]
  · rw [Nesting.after, ht']
    simp only [Nat.add_sub_cancel]

/-- A comma belongs to an argument where something is open. -/
theorem Nesting.after_comma (ht : t.kind = .op .comma) {n : Nesting} (hn : n.isOutermost = false) :
    n.after .argument t = some n := by
  rw [Nesting.after, ht]
  simp [hn]

/-- A list of arguments goes on behind a comma or ends where nothing is open. -/
theorem Nesting.after_listSign (ht : t.kind = .op .comma ∨ t.kind = .op .closeParen) :
    ({} : Nesting).after .argument t = none := by
  rcases ht with ht | ht <;> rw [Nesting.after, ht] <;> rfl

end Grammar

/-! ### What a lexer takes -/

namespace Lexer

open Grammar (Nesting Brackets)

/-- A lexer that stands at a place inside of these interpolations, where no string goes on. -/
def At (l : Lexer) (c : Cursor) (around : List (Option Quote)) : Prop :=
  ∃ pushes pops, Stands l c around pushes pops false none

/-- From here the lexer gives tokens up to a place, in the same interpolations as before.  An
argument goes on behind each of these tokens, and as much is open in it behind the last one as was
open before the first, if that satisfies a predicate. -/
def Spans (l : Lexer) (c : Cursor) (around : List (Option Quote)) (p : Nesting → Prop) : Prop :=
  ∃ ts m, Consumes l ts m ∧ ts ≠ [] ∧ m.At c around ∧
    ∀ n, p n → ts.foldlM (Nesting.after .argument) n = some n

section
variable {l m : Lexer} {c d : Cursor} {around : List (Option Quote)} {p q : Nesting → Prop}
  {x z : Char} {t u : Text}

theorem Spans.mono (h : l.Spans c around p) (hpq : ∀ n, q n → p n) : l.Spans c around q := by
  obtain ⟨ts, m, hts, hne, hm, hgo⟩ := h
  exact ⟨ts, m, hts, hne, hm, fun n hn => hgo n (hpq n hn)⟩

/-- What one lexer takes and what it takes from there on. -/
theorem Spans.append (h : l.Spans c around p)
    (h' : ∀ m : Lexer, m.At c around → m.Spans d around p) : l.Spans d around p := by
  obtain ⟨ts, m, hts, hne, hm, hgo⟩ := h
  obtain ⟨us, k, hus, -, hk, hgoes⟩ := h' m hm
  refine ⟨ts ++ us, k, hts.append hus, fun hnil => hne (List.append_eq_nil_iff.mp hnil).1, hk,
    fun n hn => ?_⟩
  rw [List.foldlM_append, hgo n hn]
  exact hgoes n hn

/-- White space before the first token makes no difference. -/
theorem Spans.of_atToken (hfresh : l.lookahead = none) (h : l.atToken.Spans c around p) :
    l.Spans c around p := by
  obtain ⟨ts, m, hts, hne, hm, hgo⟩ := h
  cases hts with
  | nil => exact absurd rfl hne
  | cons first others =>
    exact ⟨_, m, .cons ((Foreseen.skipped.next hfresh).symm.trans first) others, hne, hm, hgo⟩

/-- A space before a token is passed. -/
theorem Spans.of_space (h : l.At c around) (hrest : c.rest = ' ' :: t) (ht : t.Begun)
    (h' : ∀ m : Lexer, m.At (c.advance 1) around → m.Spans d around p) : l.Spans d around p := by
  obtain ⟨pushes, pops, h⟩ := h
  have hplace : l.atToken.cursor = c.advance 1 := by
    rw [atToken_of_pending_none h.pending]
    show l.cursor.skip Recognizer.trivia = _
    rw [h.cursor, Cursor.skip_of_some (hrest ▸ trivia_space ht.trivia)]
  exact .of_atToken h.lookahead
    (h' _ ⟨pushes, pops, hplace, h.lookahead, h.interpolations, h.pushes, h.pops,
    h.openSegment, h.pending⟩)

/-- A token that neither opens nor closes an interpolation. -/
theorem At.next (h : l.At c around) (htrivia : Recognizer.trivia c.rest = none) {y : Lexeme}
    (hfound : Lexeme.at? (0 < around.length) c.rest = some y) (hopens : y.opens = none)
    (hopen : y.kind ≠ .op .openInterpolation) (hclose : y.kind ≠ .op .closeInterpolation)
    (hlegacy : ∀ name, y.kind ≠ .var name true) :
    ∃ tok m, l.next = .ok (some tok) m ∧ tok.kind = y.kind ∧ m.At (c.advance y.length) around := by
  obtain ⟨pushes, pops, h⟩ := h
  obtain ⟨n, hnext, hn⟩ := h.next (h.read htrivia hfound)
  exact ⟨_, _, hnext, rfl, pushes, pops, hn.consume hopens hopen hclose hlegacy⟩

/-- A comma or a parenthesis. -/
theorem At.next_sign (h : l.At c around) {o : Op}
    (ho : o = .comma ∨ o = .openParen ∨ o = .closeParen) (hrest : c.rest = o.text.toList ++ u) :
    ∃ tok m, l.next = .ok (some tok) m ∧ tok.kind = .op o ∧ m.At (c.advance 1) around := by
  have htrivia : Recognizer.trivia c.rest = none := by
    rw [hrest]
    rcases ho with rfl | rfl | rfl <;> exact trivia_eq_none rfl (by decide)
  have hfound : Lexeme.at? (0 < around.length) c.rest = some ⟨.op o, 1, none⟩ := by
    rw [hrest]
    rcases ho with rfl | rfl | rfl <;> rfl
  have hother : o ≠ .openInterpolation ∧ o ≠ .closeInterpolation := by
    rcases ho with rfl | rfl | rfl <;> decide
  exact h.next htrivia hfound rfl (fun hkind => hother.1 (TokenKind.op.inj hkind))
    (fun hkind => hother.2 (TokenKind.op.inj hkind)) (by rintro _ ⟨⟩)

/-- The opening of an interpolation that is in no string. -/
theorem At.next_open (h : l.At c around) (hrest : c.rest = '#' :: '{' :: u) :
    ∃ tok m, l.next = .ok (some tok) m ∧ tok.kind = .op .openInterpolation ∧
      m.At (c.advance 2) (none :: around) := by
  obtain ⟨pushes, pops, h⟩ := h
  obtain ⟨n, hnext, hn⟩ :=
    h.next (h.read_lexeme hrest (by decide) (by decide) (Lexeme.at?_openInterpolation _ u))
  have hwhole : ¬ n.openSegment = true := by
    rw [hn.openSegment]
    exact Bool.false_ne_true
  refine ⟨_, _, hnext, rfl, pushes + 1, pops, ?_⟩
  rw [consume_eq rfl, note_open rfl, if_neg hwhole]
  exact ⟨hn.cursor, rfl, congrArg (none :: ·) hn.interpolations,
    congrArg (· + 1) hn.pushes, hn.pops, hn.openSegment, rfl⟩

/-- The closing of an interpolation that is in no string. -/
theorem At.next_close (h : l.At c (none :: around)) (hrest : c.rest = '}' :: u) :
    ∃ tok m, l.next = .ok (some tok) m ∧ tok.kind = .op .closeInterpolation ∧
      m.At (c.advance 1) around := by
  obtain ⟨pushes, pops, h⟩ := h
  obtain ⟨tok, m, hnext, hkind, hm⟩ := h.closes hrest
  exact ⟨tok, m, hnext, hkind, pushes, pops + 1, hm⟩

/-- A token after which as much is open as before. -/
theorem Spans.of_next {tok : Token} (hnext : l.next = .ok (some tok) m) (hm : m.At c around)
    (hgo : ∀ n, p n → n.after .argument tok = some n) : l.Spans c around p := by
  refine ⟨[tok], m, .cons hnext (.nil m), List.cons_ne_nil _ _, hm, fun n hn => ?_⟩
  rw [List.foldlM_cons, hgo n hn]
  rfl

/-- Tokens in brackets. -/
theorem Spans.of_brackets {inner : List (Option Quote)} {e : Cursor} {tok : Token}
    (hnext : l.next = .ok (some tok) m) (h : m.Spans d inner (·.isOutermost = false))
    (hclose : ∀ k : Lexer, k.At d inner →
      ∃ tok' k', k.next = .ok (some tok') k' ∧ Brackets tok tok' ∧ k'.At e around) :
    l.Spans e around p := by
  obtain ⟨ts, k, hts, -, hk, hgo⟩ := h
  obtain ⟨tok', k', hnext', hbrackets, hk'⟩ := hclose k hk
  refine ⟨tok :: (ts ++ [tok']), k', .cons hnext (hts.append (.cons hnext' (.nil k'))),
    List.cons_ne_nil _ _, hk', fun n _ => ?_⟩
  obtain ⟨n', hopened, hinner, hclosed⟩ := hbrackets n
  rw [List.foldlM_cons, hopened]
  show (ts ++ [tok']).foldlM (Nesting.after .argument) n' = some n
  rw [List.foldlM_append, hgo n' hinner]
  show List.foldlM (Nesting.after .argument) n' [tok'] = some n
  rw [List.foldlM_cons, hclosed]
  rfl

end

/-! ### The parts of an argument -/

section
variable {l : Lexer} {c : Cursor} {around : List (Option Quote)} {p : Nesting → Prop}
  {z : Char} {u : Text} (h : l.At c around) (hz : z ∈ wordEnds)
include h hz

theorem spans_word {name : Text} (ascii : Text.isAsciiName.starts name = true)
    (hrest : c.rest = name ++ z :: u) : l.Spans (c.advance name.length) around p := by
  obtain ⟨y, hfound, hword, hlength, hopens⟩ :=
    Lexeme.at?_name (u := u) hz ascii (0 < around.length)
  have hne : ∀ kind, ¬ TokenKind.IsWord kind → y.kind ≠ kind := by
    rintro kind hkind rfl
    exact hkind hword
  have htrivia : Recognizer.trivia c.rest = none := by
    rw [hrest]
    exact ((Atom.word name ascii).begun.append _).trivia
  obtain ⟨tok, m, hnext, hkind, hm⟩ := h.next htrivia (hrest ▸ hfound) hopens
    (hne _ (by rintro (h | h | h) <;> cases h)) (hne _ (by rintro (h | h | h) <;> cases h))
    fun name => hne _ id
  rw [hlength] at hm
  exact .of_next hnext hm fun n _ => Nesting.after_word (hkind ▸ hword) .argument n

theorem spans_number {negative : Bool} {digits : Text}
    (decimal : digits ≠ [] ∧ ∀ d ∈ digits, d.isDigit = true)
    (hrest : c.rest = (Atom.number negative digits decimal).source ++ z :: u) :
    l.Spans (c.advance (Atom.number negative digits decimal).source.length) around p := by
  have hfound := Lexeme.at?_integer (u := u) decimal.1 decimal.2 hz (0 < around.length) negative
  have htrivia : Recognizer.trivia c.rest = none := by
    rw [hrest]
    exact ((Atom.number negative digits decimal).begun.append _).trivia
  obtain ⟨tok, m, hnext, hkind, hm⟩ := h.next htrivia (hrest ▸ hfound) rfl (by rintro ⟨⟩)
    (by rintro ⟨⟩) (by rintro _ ⟨⟩)
  refine .of_next hnext hm fun n _ => ?_
  rw [Nesting.after, hkind]

omit hz in
theorem spans_string {value : Text} (plain : ∀ x ∈ value, x ≠ '"' ∧ x ≠ '\\' ∧ x ≠ '#')
    (hrest : c.rest = '"' :: (value ++ '"' :: u)) :
    l.Spans (c.advance (value.length + 2)) around p := by
  have htrivia : Recognizer.trivia c.rest = none := by
    rw [hrest]
    exact trivia_eq_none rfl (by decide)
  obtain ⟨tok, m, hnext, hkind, hm⟩ := h.next htrivia (hrest ▸ Lexeme.at?_plainString _ plain u) rfl
    (by rintro ⟨⟩) (by rintro ⟨⟩) (by rintro _ ⟨⟩)
  refine .of_next hnext hm fun n _ => ?_
  rw [Nesting.after, hkind]

end

mutual

/-- The tokens of a part of an argument are passed. -/
theorem spans_atom (a : Atom) {l : Lexer} {c : Cursor} {around : List (Option Quote)}
    {z : Char} {u : Text} (h : l.At c around) (hz : z ∈ wordEnds)
    (hrest : c.rest = a.source ++ z :: u) :
    l.Spans (c.advance a.source.length) around fun _ => True := by
  match a with
  | .word name ascii => exact spans_word h hz ascii hrest
  | .number negative digits decimal => exact spans_number h hz decimal hrest
  | .string value plain =>
    rw [Atom.source, List.length_cons, List.length_append]
    refine spans_string (u := z :: u) h plain (hrest.trans ?_)
    rw [Atom.source, List.cons_append, List.append_assoc]
    rfl
  | .group inner =>
    have hopen : c.rest = Op.openParen.text.toList ++ (inner.source ++ ')' :: z :: u) := by
      rw [hrest, Atom.source, List.cons_append, List.append_assoc]
      rfl
    have hinner : (c.advance 1).rest = inner.source ++ ')' :: z :: u :=
      Cursor.rest_advance_cons hopen
    obtain ⟨tok, m, hnext, hkind, hm⟩ := h.next_sign (.inr (.inl rfl)) hopen
    refine .of_brackets hnext (spans_arguments inner hm (by decide) hinner) fun k hk => ?_
    obtain ⟨tok', k', hnext', hkind', hk'⟩ :=
      hk.next_sign (u := z :: u) (.inr (.inr rfl)) (Cursor.rest_advance_append hinner)
    rw [Cursor.advance_advance, Cursor.advance_advance] at hk'
    refine ⟨tok', k', hnext', Grammar.brackets_parens hkind hkind', ?_⟩
    rw [Atom.length_source_group]
    exact hk'
  | .interpolation inner =>
    have hopen : c.rest = '#' :: '{' :: (inner.source ++ '}' :: z :: u) := by
      rw [hrest, Atom.source, List.cons_append, List.cons_append, List.append_assoc]
      rfl
    have hinner : (c.advance 2).rest = inner.source ++ '}' :: z :: u := by
      rw [Cursor.rest_advance, hopen]
      rfl
    obtain ⟨tok, m, hnext, hkind, hm⟩ := h.next_open hopen
    refine .of_brackets hnext (spans_arguments inner hm (by decide) hinner) fun k hk => ?_
    obtain ⟨tok', k', hnext', hkind', hk'⟩ := hk.next_close (Cursor.rest_advance_append hinner)
    rw [Cursor.advance_advance, Cursor.advance_advance] at hk'
    refine ⟨tok', k', hnext', Grammar.brackets_interpolation hkind hkind', ?_⟩
    rw [Atom.length_source_interpolation]
    exact hk'

/-- An argument is passed. -/
theorem spans_argument (e : Argument) {l : Lexer} {c : Cursor}
    {around : List (Option Quote)} {z : Char} {u : Text} (h : l.At c around) (hz : z ∈ wordEnds)
    (hrest : c.rest = e.source ++ z :: u) :
    l.Spans (c.advance e.source.length) around fun _ => True := by
  match e with
  | .last a => exact spans_atom a h hz hrest
  | .more a others =>
    have hspace : c.rest = a.source ++ ' ' :: (others.source ++ z :: u) := by
      rw [hrest, Argument.source, List.append_assoc]
      rfl
    have hbehind := Cursor.rest_advance_append hspace
    refine (spans_atom a h (by decide) hspace).append fun m hm => ?_
    refine .of_space hm hbehind (others.begun.append _) fun k hk => ?_
    have hspan := spans_argument others hk hz (Cursor.rest_advance_cons hbehind)
    rw [Cursor.advance_advance, Cursor.advance_advance] at hspan
    rw [Argument.length_source_more]
    exact hspan

/-- **Arguments with commas between them are passed where something is open.** -/
theorem spans_arguments (es : Arguments) {l : Lexer} {c : Cursor}
    {around : List (Option Quote)} {z : Char} {u : Text} (h : l.At c around) (hz : z ∈ wordEnds)
    (hrest : c.rest = es.source ++ z :: u) :
    l.Spans (c.advance es.source.length) around (·.isOutermost = false) := by
  match es with
  | .last e => exact (spans_argument e h hz hrest).mono fun _ _ => trivial
  | .more e others =>
    have hcomma : c.rest = e.source ++ ',' :: ' ' :: (others.source ++ z :: u) := by
      rw [hrest, Arguments.source, List.append_assoc]
      rfl
    have hbehind := Cursor.rest_advance_append hcomma
    refine ((spans_argument e h (by decide) hcomma).mono fun _ _ => trivial).append fun m hm => ?_
    -- Something is open around the arguments, so the comma does not end anything.
    obtain ⟨tok, k, hnext, hkind, hk⟩ := hm.next_sign (.inl rfl) hbehind
    refine (Spans.of_next hnext hk fun n hn => Nesting.after_comma hkind hn).append fun k hk => ?_
    have hspace := Cursor.rest_advance_cons hbehind
    refine .of_space hk hspace (others.begun.append _) fun k hk => ?_
    have hspan := spans_arguments others hk hz (Cursor.rest_advance_cons hspace)
    rw [Cursor.advance_advance, Cursor.advance_advance, Cursor.advance_advance] at hspan
    rw [Arguments.length_source_more]
    exact hspan

end

/-- A loop takes tokens that it goes on behind, and ends where it ends from there on. -/
theorem collectUntil_of_consumes {β : Type} {go : β → Token → Option β} {b b' : β} {l m k : Lexer}
    {ts : List Token} (h : Consumes l ts m) (hfresh : l.lookahead = none)
    (hgo : ts.foldlM go b = some b') (hend : collectUntil go b' m = .ok [] k) :
    collectUntil go b l = .ok ts k := by
  induction h generalizing b with
  | nil =>
    cases hgo
    exact hend
  | @cons l m n t ts first others ih =>
    obtain ⟨b₁, hfirst, hothers⟩ := Option.bind_eq_some_iff.mp hgo
    exact collectUntil_of_taken hfresh first hfirst (ih (fresh_of_next first) hothers hend)

end Lexer

/-! ### The expression -/

namespace Grammar

/-- **An argument is an expression in a list of arguments**, and that of its text. -/
theorem expression_of_argument (e : Argument) {s : State} {z : Char} {u : Text}
    (hz : z = ',' ∨ z = ')') (hrest : (s.cursor.skip Recognizer.trivia).rest = e.source ++ z :: u) :
    ∃ x v, expression .argument s = .ok x v ∧ x.text = e.source ∧ v.cursor.rest = z :: u ∧
      v.blockEnd = s.blockEnd := by
  obtain ⟨d, hd⟩ : ∃ d, d = s.cursor.skip Recognizer.trivia := ⟨_, rfl⟩
  rw [← hd] at hrest
  have hmem : z ∈ wordEnds := by rcases hz with rfl | rfl <;> decide
  have hstart : (Lexer.ofCursor d s.options).At d [] := ⟨0, 0, .ofCursor d s.options⟩
  obtain ⟨ts, m, hts, hne, ⟨pushes, pops, hm⟩, hgo⟩ := Lexer.spans_argument e hstart hmem hrest
  have hplace : m.cursor.rest = z :: u := by rw [hm.cursor, Cursor.rest_advance_append hrest]
  obtain ⟨k, hstop, hfront, hprevious, -⟩ :
      ∃ k, Lexer.collectUntil (Nesting.after .argument) {} m = .ok [] k ∧
      k.front = m.cursor ∧ k.previousEnd = m.previousEnd ∧ k.warnings = m.warnings := by
    rcases hz with rfl | rfl
    · exact Lexer.collectUntil_of_sign hm.lookahead hm.pending (o := .comma) hplace
        (trivia_eq_none rfl (by decide)) rfl fun t ht => Nesting.after_listSign (.inl ht)
    · exact Lexer.collectUntil_of_sign hm.lookahead hm.pending (o := .closeParen) hplace
        (trivia_eq_none rfl (by decide)) rfl fun t ht => Nesting.after_listSign (.inr ht)
  have hcollect := Lexer.collectUntil_of_consumes hts rfl (hgo {} trivial) hstop
  have hempty : ts.isEmpty = false := List.isEmpty_eq_false_iff.mpr hne
  have htext : k.previousEnd.textSince d = e.source := by
    rw [hprevious, hts.previousEnd hne, hm.cursor, Cursor.textSince_advance, hrest, List.take_left]
  rw [expression_apply]
  simp only [← hd, hcollect, hempty, Bool.false_eq_true, if_false]
  exact ⟨_, _, rfl, htext, by rw [hfront, hplace], rfl⟩

end Grammar
end Stylesheet
