import Stylesheet.Proofs.Cutoff
import Stylesheet.Proofs.Expressions
import Stylesheet.Proofs.Quotation
import Stylesheet.Proofs.SpacedColon

/-!
# Words

A name of ASCII letters, digits, hyphens and underscores that does not start with a hyphen is one
token where a space, a comma or a bracket follows that does not belong to it: a truth value, an
operator that is a word, or an identifier (`Lexeme.at?_name`).  So as a value before a brace it is
the whole expression (`expression_of_word`).
-/
namespace Stylesheet

open Recognizer

/-! ### The characters of a name -/

/-- A character that an ASCII name may start with. -/
def isAsciiStart (c : Char) : Bool :=
  c.isAlpha || c == '_'

/-- A character that an ASCII name may hold. -/
def isAsciiBody (c : Char) : Bool :=
  c.isAlphanum || c == '_' || c == '-'

section
variable {c : Char}

theorem isAsciiBody_of_start (h : isAsciiStart c = true) : isAsciiBody c = true := by
  unfold isAsciiStart at h
  unfold isAsciiBody Char.isAlphanum
  rcases Bool.or_eq_true_iff.mp h with h | h <;> simp [h]

theorem isNameBody_of_ascii (h : isAsciiBody c = true) : isNameBody c = true := by
  unfold isAsciiBody at h
  rw [isNameBody, h, Bool.true_or]

theorem toNat_of_ascii (h : isAsciiBody c = true) : c.toNat < 0x80 := by
  have hranges : c.isAlphanum =
      (decide (65 ≤ c.val ∧ c.val ≤ 90) || decide (97 ≤ c.val) && decide (c.val ≤ 122) ||
        decide (48 ≤ c.val) && decide (c.val ≤ 57)) := rfl
  rw [isAsciiBody, hranges] at h
  simp only [Bool.or_eq_true, Bool.and_eq_true, decide_eq_true_eq, beq_iff_eq,
    UInt32.le_iff_toNat_le] at h
  rw [Char.toNat]
  rcases h with (((h | h) | h) | rfl) | rfl
  · exact Nat.lt_of_le_of_lt h.2 (by decide)
  · exact Nat.lt_of_le_of_lt h.2 (by decide)
  · exact Nat.lt_of_le_of_lt h.2 (by decide)
  · decide
  · decide

/-- What holds of each ASCII character holds of the characters of names. -/
theorem of_ascii {p : Char → Prop} (h : isAsciiBody c = true)
    (hall : ∀ n < 0x80, p (Char.ofNat n)) : p c := by
  have hc := hall c.toNat (toNat_of_ascii h)
  rwa [Char.ofNat_toNat] at hc

theorem isBlank_of_ascii (h : isAsciiBody c = true) : isBlank c = false :=
  of_ascii (p := fun c => isAsciiBody c = true → isBlank c = false) h (by decide) h

theorem isDecimalDigit_of_start (h : isAsciiStart c = true) : isDecimalDigit c = false :=
  of_ascii (p := fun c => isAsciiStart c = true → isDecimalDigit c = false) (isAsciiBody_of_start h)
    (by decide +kernel) h

theorem ne_of_start {x : Char} (h : isAsciiStart c = true) (hx : isAsciiStart x = false) :
    c ≠ x := by
  rintro rfl
  rw [hx] at h
  cases h

theorem ne_of_body {x : Char} (h : isAsciiBody c = true) (hx : isAsciiBody x = false) : c ≠ x := by
  rintro rfl
  rw [hx] at h
  cases h

theorem foldCase_of_ascii {y : Char} (hs : y ≠ 's') (hk : y ≠ 'k') (hlow : y.toNat < 97)
    (h : isAsciiBody c = true) (hy : isAsciiBody y = false) : foldCase c ≠ y := by
  intro hfold
  rcases Grammar.foldCase_eq hs hk hfold with rfl | ⟨hupper, -, hsum⟩
  · rw [h] at hy
    cases hy
  · omega

end

namespace Text

/-- What is known of an ASCII name: its first character and the others. -/
theorem exists_of_starts {name : Text} (h : isAsciiName.starts name = true) :
    ∃ c u, name = c :: u ∧ isAsciiStart c = true ∧ ∀ d ∈ name, isAsciiBody d = true := by
  unfold isAsciiName.starts at h
  split at h
  · next c u =>
    obtain ⟨hc, hu⟩ := Bool.and_eq_true_iff.mp h
    refine ⟨c, u, rfl, hc, fun d hd => ?_⟩
    rcases List.mem_cons.mp hd with rfl | hd
    · exact isAsciiBody_of_start hc
    · exact List.all_eq_true.mp hu d hd
  · cases h

theorem isAsciiName_of_starts {name : Text} (h : isAsciiName.starts name = true) :
    name.isAsciiName = true := by
  obtain ⟨c, u, rfl, hc, -⟩ := exists_of_starts h
  rw [isAsciiName]
  · exact h
  · rintro _ hhyphen
    exact absurd (List.cons.inj hhyphen).1 (ne_of_start hc (by decide))

end Text

/-! ### Forms of text at a name -/

/-- The characters that may stand right behind a word without going on with it. -/
def wordEnds : List Char :=
  ['{', ' ', ',', ')', '}']

/-- What holds of each of them holds of what stands behind a word. -/
theorem of_wordEnd {z : Char} {p : Char → Prop} [DecidablePred p] (hz : z ∈ wordEnds)
    (hall : wordEnds.all (p ·) = true) : p z :=
  of_decide_eq_true (List.all_eq_true.mp hall z hz)

section
variable {name u word : Text} {z : Char} (hz : z ∈ wordEnds)
  (hname : ∀ d ∈ name, isAsciiBody d = true) (hend : wordEnds.all (· ∉ word) = true)

theorem head?_drop_name (hname : ∀ d ∈ name, isAsciiBody d = true) {n : Nat}
    (hn : n ≤ name.length) {x : Char} (hx : isAsciiBody x = false) (hopen : x ≠ z) :
    ((name ++ z :: u).drop n).head? ≠ some x := by
  intro hhead
  rw [List.drop_append_of_le_length hn] at hhead
  cases hdrop : name.drop n with
  | nil =>
    rw [hdrop] at hhead
    exact hopen (Option.some.inj hhead).symm
  | cons d r =>
    rw [hdrop] at hhead
    have hd : d ∈ name := List.mem_of_mem_drop (hdrop ▸ List.mem_cons_self)
    exact ne_of_body (hname d hd) hx (Option.some.inj hhead)

include hz hend

/-- A fixed text that does not hold what stands behind a word ends with the word. -/
theorem length_le_of_literal (h : word <+: name ++ z :: u) : word.length ≤ name.length := by
  refine Nat.le_of_not_lt fun hlt => of_wordEnd hz hend ?_
  have htake := List.prefix_iff_eq_take.mp h
  rw [htake, List.take_append,
    show word.length - name.length = word.length - name.length - 1 + 1 by omega,
    List.take_succ_cons]
  exact List.mem_append_right _ List.mem_cons_self

theorem length_le_of_caseless {n : Nat} (h : caseless word (name ++ z :: u) = some n) :
    n ≤ name.length := by
  obtain ⟨hfold, rfl⟩ := caseless_eq_some.mp h
  refine Nat.le_of_not_lt fun hlt => of_wordEnd hz hend ?_
  have hmem : z ∈ (name ++ z :: u).take word.length := by
    rw [List.take_append,
      show word.length - name.length = word.length - name.length - 1 + 1 by omega,
      List.take_succ_cons]
    exact List.mem_append_right _ List.mem_cons_self
  have hsame : foldCase z = z := of_wordEnd (p := fun z => foldCase z = z) hz (by decide)
  rw [← hfold]
  exact List.mem_map.mpr ⟨z, hmem, hsame⟩

include hname

/-- A text with a character that no name holds does not fit. -/
theorem caseless_name {y : Char} (hy : y ∈ word)
    (hother : ∀ c, isAsciiBody c = true → foldCase c ≠ y) :
    caseless word (name ++ z :: u) = none := by
  refine Option.eq_none_iff_forall_not_mem.mpr fun n hn => ?_
  have hle := length_le_of_caseless hz hend hn
  obtain ⟨hfold, rfl⟩ := caseless_eq_some.mp hn
  rw [List.take_append_of_le_length hle] at hfold
  rw [← hfold] at hy
  obtain ⟨c, hc, hcy⟩ := List.mem_map.mp hy
  exact hother c (hname c (List.mem_of_mem_take hc)) hcy

/-- No parenthesis follows a text that fits. -/
theorem head?_behind_caseless {n : Nat} (h : caseless word (name ++ z :: u) = some n) :
    ((name ++ z :: u).drop n).head? ≠ some '(' := by
  have hopen : '(' ≠ z := of_wordEnd hz (by decide)
  exact head?_drop_name hname (length_le_of_caseless hz hend h) (by decide) hopen

/-- A word that nothing continues is the whole name. -/
theorem length_of_notBefore {n : Nat}
    (h : (literal word).notBefore isNameChar (name ++ z :: u) = some n) : n = name.length := by
  obtain ⟨hliteral, hbehind⟩ := Lexeme.notBefore_eq_some.mp h
  obtain ⟨hfront, rfl⟩ := literal_eq_some.mp hliteral
  have hle := length_le_of_literal hz hend hfront
  refine Nat.le_antisymm hle (Nat.le_of_not_lt fun hlt => ?_)
  rw [List.drop_append_of_le_length hle] at hbehind
  cases hdrop : name.drop word.length with
  | nil =>
    have hlength := congrArg List.length hdrop
    rw [List.length_drop, List.length_nil] at hlength
    omega
  | cons d r =>
    have hd : d ∈ name := List.mem_of_mem_drop (hdrop ▸ List.mem_cons_self)
    rw [hdrop, List.cons_append, List.head?_cons, Option.any_some, isNameChar,
      isNameBody_of_ascii (hname d hd)] at hbehind
    cases hbehind

end

/-! ### The token -/

/-- A token that is a word: it neither opens nor closes anything, and warns of nothing. -/
def TokenKind.IsWord : TokenKind → Prop
  | .bool _ => True
  | .ident _ => True
  | .op o => o = .and ∨ o = .or ∨ o = .not
  | _ => False

/-- An expression goes on behind a word. -/
theorem Grammar.Nesting.after_word {t : Token} (h : t.kind.IsWord) (stop : Stop) (n : Nesting) :
    n.after stop t = some n := by
  unfold Nesting.after
  cases hkind : t.kind with
  | op o =>
    rw [hkind] at h
    rcases h with rfl | rfl | rfl <;> rfl
  | var => rw [hkind] at h; exact h.elim
  | _ => rfl

theorem Lexer.note_word {t : Token} (h : t.kind.IsWord) (l : Lexer) :
    l.note t = { l with resume := none } := by
  unfold Lexer.note
  cases hkind : t.kind with
  | op o =>
    rw [hkind] at h
    rcases h with rfl | rfl | rfl <;> rfl
  | var => rw [hkind] at h; exact h.elim
  | _ => rfl

namespace Lexeme

section
variable {name u : Text} {z : Char} (hz : z ∈ wordEnds)
  (hname : Text.isAsciiName.starts name = true)
include hz hname

omit hname in
theorem any_isNameChar_wordEnd : (z :: u).head?.any isNameChar = false :=
  of_wordEnd (p := fun z => isNameChar z = false) hz (by decide)

theorem specialHead_word : Recognizer.specialHead (name ++ z :: u) = none := by
  obtain ⟨c, v, hcons, hc, hbody⟩ := Text.exists_of_starts hname
  -- No name holds the colon of this one, and no parenthesis follows where the others end.
  have hprogid : caseless "progid:".toList (name ++ z :: u) = none :=
    caseless_name hz hbody (by decide) (y := ':') (by decide) fun c hc =>
      foldCase_of_ascii (by decide) (by decide) (by decide) hc (by decide)
  refine Option.eq_none_iff_forall_not_mem.mpr fun n hn => ?_
  obtain ⟨k, hk, m, hm, -⟩ := andThen_eq_some.mp hn
  have hparen := specialHead.head?_of_literal hm
  rcases orElse_eq_some_iff.mp hk with hk | ⟨-, hk⟩
  · obtain ⟨j, hj, i, hi, rfl⟩ := andThen_eq_some.mp hk
    rcases orElse_eq_some_iff.mp hj with hj | ⟨-, hj⟩
    · have hhyphen := specialHead.head?_of_vendor hj
      rw [hcons] at hhyphen
      exact ne_of_start hc (by decide) (Option.some.inj hhyphen)
    · cases hj
      rw [Nat.zero_add] at hparen
      exact head?_behind_caseless hz hbody (by decide) hi hparen
  rcases orElse_eq_some_iff.mp hk with hk | ⟨-, hk⟩
  · exact head?_behind_caseless hz hbody (by decide) hk hparen
  · obtain ⟨j, hj, -⟩ := andThen_eq_some.mp hk
    rw [hprogid] at hj
    cases hj

theorem uri_word : Recognizer.uri (name ++ z :: u) = none := by
  obtain ⟨-, -, -, -, hbody⟩ := Text.exists_of_starts hname
  refine Grammar.andThen_eq_none ?_ _
  exact caseless_name hz hbody (by decide) (y := '(') (by decide) fun c hc =>
    foldCase_of_ascii (by decide) (by decide) (by decide) hc (by decide)

theorem unicodeRange_word : Recognizer.unicodeRange (name ++ z :: u) = none := by
  obtain ⟨c, v, hcons, -, hbody⟩ := Text.exists_of_starts hname
  refine Option.eq_none_iff_forall_not_mem.mpr fun n hn => ?_
  obtain ⟨k, hk, m, hm, -⟩ := andThen_eq_some.mp hn
  obtain ⟨j, hj, -⟩ := andThen_eq_some.mp hm
  have hone : k = 1 := by
    rw [hcons, List.cons_append, Recognizer.one] at hk
    split at hk
    · exact (Option.some.inj hk).symm
    · cases hk
  subst hone
  have hlength : 1 ≤ name.length := by
    rw [hcons, List.length_cons]
    omega
  have hplus : '+' ≠ z := of_wordEnd hz (by decide)
  exact head?_drop_name hbody hlength (by decide) hplus (specialHead.head?_of_literal hj)

/-- What a rule finds at a name is the name. -/
theorem isWord_of_takenBy {inside : Bool} {x : Lexeme} (h : TakenBy inside (name ++ z :: u) x) :
    x.kind.IsWord ∧ x.length = name.length ∧ x.opens = none := by
  obtain ⟨c, v, hcons, hc, hbody⟩ := Text.exists_of_starts hname
  have hword : ∀ {w : String} {kind : TokenKind}, wordEnds.all (· ∉ w.toList) = true →
      word? w kind (name ++ z :: u) = some x →
        x.kind = kind ∧ x.length = name.length ∧ x.opens = none := by
    intro w kind hend hfound
    obtain ⟨n, hn, rfl⟩ := Option.map_eq_some_iff.mp hfound
    exact ⟨rfl, length_of_notBefore hz hbody hend hn, rfl⟩
  -- Most rules need a first character that no name has.  A word that ends within the name is
  -- refused, for a character of a name follows it.
  cases h with
  | reference found =>
    rw [hcons, List.cons_append, reference?, if_neg] at found
    · cases found
    · rintro (rfl | rfl) <;> exact absurd hc (by decide)
  | string q found =>
    rw [hcons, List.cons_append, string?, if_neg] at found
    · cases found
    · cases q <;> exact ne_of_start hc (by decide)
  | number found =>
    have hhyphen : (name ++ z :: u).head? ≠ some '-' := by
      rw [hcons]
      exact fun heq => ne_of_start hc (by decide) (Option.some.inj heq)
    have hwhole : (c :: (v ++ z :: u)).dropWhile isDecimalDigit = c :: (v ++ z :: u) :=
      List.dropWhile_cons_of_neg (by rw [isDecimalDigit_of_start hc]; decide)
    have hfraction : fraction (c :: (v ++ z :: u)) = [] := by
      refine fraction_of_no_point fun r hpoint => ?_
      rw [hwhole] at hpoint
      exact ne_of_start hc (by decide) (List.cons.inj hpoint).1
    rw [number?_eq, if_neg hhyphen, hcons, List.cons_append, unsigned?, hfraction,
      List.takeWhile_cons_of_neg (by rw [isDecimalDigit_of_start hc]; decide)] at found
    cases found
  | color found =>
    rw [hcons, List.cons_append, color?] at found
    · cases found
    · rintro _ hhash
      exact ne_of_start hc (by decide) (List.cons.inj hhash).1
  | bool found =>
    rcases orElse_eq_some_iff.mp found with found | ⟨-, found⟩
    · obtain ⟨hkind, hrest⟩ := hword (by decide) found
      exact ⟨by rw [hkind]; trivial, hrest⟩
    · obtain ⟨hkind, hrest⟩ := hword (by decide) found
      exact ⟨by rw [hkind]; trivial, hrest⟩
  | uri found =>
    rw [span?, uri_word hz hname] at found
    cases found
  | unicodeRange found =>
    rw [span?, unicodeRange_word hz hname] at found
    cases found
  | wordOp found =>
    rcases orElse_eq_some_iff.mp found with found | ⟨-, found⟩
    · obtain ⟨hkind, hrest⟩ := hword (by decide) found
      exact ⟨by rw [hkind]; exact .inl rfl, hrest⟩
    rcases orElse_eq_some_iff.mp found with found | ⟨-, found⟩
    · obtain ⟨hkind, hrest⟩ := hword (by decide) found
      exact ⟨by rw [hkind]; exact .inr (.inl rfl), hrest⟩
    · obtain ⟨hkind, hrest⟩ := hword (by decide) found
      exact ⟨by rw [hkind]; exact .inr (.inr rfl), hrest⟩
  | ident found =>
    obtain ⟨n, hn, rfl⟩ := Option.map_eq_some_iff.mp found
    rw [identifier_ascii (Text.isAsciiName_of_starts hname) (any_isNameChar_wordEnd hz)] at hn
    exact ⟨trivial, (Option.some.inj hn).symm, rfl⟩
  | symbol found =>
    obtain ⟨-, o, ho, hfront, -⟩ := symbol?_eq_some found
    have hsymbols : ∀ o ∈ Op.symbols, o.text.toList.head?.any isAsciiStart = false := by decide
    obtain ⟨y, r, hy⟩ := List.exists_cons_of_ne_nil o.text_ne_nil
    have hstart := hsymbols o ho
    rw [hy, List.head?_cons, Option.any_some] at hstart
    rw [hy, hcons, List.cons_append, List.cons_prefix_cons] at hfront
    exact absurd hfront.1.symm (ne_of_start hc hstart)

/-- **A name is one token where nothing goes on with it**, and a word. -/
theorem at?_name (inside : Bool) : ∃ x, at? inside (name ++ z :: u) = some x ∧
    x.kind.IsWord ∧ x.length = name.length ∧ x.opens = none := by
  obtain ⟨x, hx⟩ : ∃ x, at? inside (name ++ z :: u) = some x := by
    have hident : Recognizer.identifier (name ++ z :: u) = some name.length :=
      identifier_ascii (Text.isAsciiName_of_starts hname) (any_isNameChar_wordEnd hz)
    rw [at?, specialHead_word hz hname]
    cases leading? (name ++ z :: u) with
    | some x => exact ⟨x, rfl⟩
    | none =>
      simp only [Option.none_or, Option.isSome_none, Bool.false_eq_true, if_false,
        trailing?, ident?, hident, Option.map_some]
      cases wordOp? (name ++ z :: u) with
      | some x => exact ⟨x, rfl⟩
      | none => exact ⟨_, rfl⟩
  exact ⟨x, hx, isWord_of_takenBy hz hname (takenBy_of_at? hx)⟩

end

end Lexeme

/-! ### The expression -/

namespace Lexer

section
variable {β : Type} {go : β → Token → Option β} {b : β} {l : Lexer}

/-- A loop over tokens goes on behind a token that it takes. -/
theorem collectUntil_of_next {b' : β} {m n k : Lexer} {t : Token} {ts : List Token}
    (hdone : isDone l = .ok false l) (hpeek : peek l = .ok (some t) m) (hgo : go b t = some b')
    (hnext : next m = .ok (some t) n) (hsize : n.size < l.size)
    (h : collectUntil go b' n = .ok ts k) : collectUntil go b l = .ok (t :: ts) k := by
  unfold peek at hpeek
  unfold next at hnext
  unfold collectUntil Rules.collectUntil at h ⊢
  obtain ⟨us, v, hmore, hus⟩ := exists_of_bind h
  cases hus
  rw [bind_apply, unfold_apply]
  simp only [bind_apply, hdone, hpeek, hgo, hnext, pure_apply, Bool.false_eq_true, if_false,
    Option.toList_some, if_pos hsize]
  rw [hmore]
  rfl

/-- A loop over tokens takes nothing where a sign comes next that ends it. -/
theorem collectUntil_of_sign (hfresh : l.lookahead = none) (hpending : l.pending = none)
    {x : Char} {u : Text} {o : Op} (hrest : l.cursor.rest = x :: u)
    (htrivia : Recognizer.trivia (x :: u) = none)
    (hsign : Lexeme.at? (0 < l.depth) (x :: u) = some { kind := .op o, length := 1 })
    (hgo : ∀ t : Token, t.kind = .op o → go b t = none) :
    ∃ k, collectUntil go b l = .ok [] k ∧ k.front = l.cursor ∧ k.previousEnd = l.previousEnd ∧
      k.warnings = l.warnings := by
  have hskip : l.skipTrivia = l := skipTrivia_eq (hrest ▸ htrivia)
  have hend : l.skipTrivia.cursor.atEnd = false := by
    rw [hskip, Cursor.atEnd, hrest]
    rfl
  have hnext :
      Lexeme.at? (0 < l.depth) l.skipTrivia.cursor.rest = some { kind := .op o, length := 1 } := by
    rw [hskip, hrest, hsign]
  have hdone : isDone l = .ok false l := by
    rw [isDone_apply, hfresh, hpending, hend, hskip]
    rfl
  have hpeek := Rules.peek_apply interpolation l
  rw [hfresh, Rules.read_lexeme interpolation hpending hend hnext, hskip] at hpeek
  exact ⟨_, Grammar.collectUntil_of_stop hdone hpeek (hgo _ rfl), rfl, rfl, rfl⟩

/-- A loop over tokens that a brace ends takes nothing before one. -/
theorem collectUntil_of_brace (hfresh : l.lookahead = none) (hpending : l.pending = none) {u : Text}
    (hrest : l.cursor.rest = '{' :: u)
    (hgo : ∀ t : Token, t.kind = .op .openBrace → go b t = none) :
    ∃ k, collectUntil go b l = .ok [] k ∧ k.front = l.cursor ∧ k.previousEnd = l.previousEnd ∧
      k.warnings = l.warnings :=
  collectUntil_of_sign hfresh hpending hrest (Recognizer.trivia_eq_none rfl (by decide)) rfl hgo

end

theorem next_of_lookahead {l : Lexer} {ahead : Lookahead} (h : l.lookahead = some ahead) :
    next l = .ok (some ahead.token) (l.consume ahead) := by
  unfold next
  rw [Rules.next_apply, h]

/-- Consuming a word leaves nothing open. -/
theorem consume_word {ahead : Lookahead} (hword : ahead.token.kind.IsWord)
    (hopens : ahead.opens = none) (l : Lexer) :
    (l.consume ahead).cursor = l.cursor ∧ (l.consume ahead).lookahead = none ∧
      (l.consume ahead).pending = none ∧ (l.consume ahead).previousEnd = l.cursor ∧
      (l.consume ahead).warnings = l.warnings ++ ahead.warnings := by
  unfold Lexer.consume
  rw [Lexer.note_word hword, hopens]
  refine ⟨rfl, rfl, ?_, rfl, rfl⟩
  unfold Lexer.pending
  exact ite_self _

/-- A word before a brace is what is read up to the brace. -/
theorem collectUntil_of_word {name u : Text} (hname : Text.isAsciiName.starts name = true)
    {d : Cursor} (hrest : d.rest = name ++ '{' :: u) (options : Options) (stop : Grammar.Stop) :
    ∃ t k, collectUntil (Grammar.Nesting.after stop) {} (.ofCursor d options) = .ok [t] k ∧
      k.front = d.advance name.length ∧ k.previousEnd = d.advance name.length ∧
      k.warnings = [] := by
  obtain ⟨c, v, hcons, hc, hbody⟩ := Text.exists_of_starts hname
  obtain ⟨x, hx, hword, hlength, hopens⟩ :=
    Lexeme.at?_name (z := '{') (u := u) (by decide) hname false
  have hskip : (Lexer.ofCursor d options).skipTrivia = .ofCursor d options := by
    refine skipTrivia_eq (show Recognizer.trivia d.rest = none from ?_)
    rw [hrest, hcons]
    exact Recognizer.trivia_eq_none (isBlank_of_ascii (isAsciiBody_of_start hc))
      (ne_of_start hc (by decide))
  have hend : d.atEnd = false := by
    rw [Cursor.atEnd, hrest, hcons]
    rfl
  have hdone : isDone (.ofCursor d options) = .ok false (.ofCursor d options) := by
    rw [isDone_apply, hskip]
    exact congrArg (EStateM.Result.ok · _) hend
  -- The first round takes the word, and the second one stops at the brace.
  obtain ⟨m, hpeek, hahead, hcursor, hwarnings⟩ : ∃ m, peek (.ofCursor d options) =
      .ok (some (x.ahead d).token) m ∧ m.lookahead = some (x.ahead d) ∧
        m.cursor = d.advance name.length ∧ m.warnings = [] := by
    have hread := Rules.read_lexeme interpolation (l := .ofCursor d options) (x := x) rfl
      (by rw [hskip]; exact hend) (by rw [hskip]; exact hrest ▸ hx)
    unfold peek
    rw [Rules.peek_apply, hread, hskip]
    exact ⟨_, rfl, rfl, hlength ▸ rfl, rfl⟩
  obtain ⟨hplace, hfresh, hpending, hbehind, hkept⟩ :=
    consume_word (show (x.ahead d).token.kind.IsWord from hword) hopens m
  have hbrace : (m.consume (x.ahead d)).cursor.rest = '{' :: u := by
    rw [hplace, hcursor, Cursor.rest_advance_append hrest]
  have hends : ∀ t : Token, t.kind = .op .openBrace → Grammar.Nesting.after stop {} t = none :=
    fun t ht => by rw [Grammar.Nesting.after, ht]
  obtain ⟨k, hstop, hfront, hprevious, hsame⟩ := collectUntil_of_brace hfresh hpending hbrace hends
  have hsize : (m.consume (x.ahead d)).size < (Lexer.ofCursor d options).size := by
    have hleft : (d.advance name.length).left < d.left := by
      rw [Cursor.left_eq, Cursor.left_eq, Cursor.rest_advance_append hrest, hrest, hcons]
      simp only [List.cons_append, List.length_cons, List.length_append]
      omega
    have hfront : (m.consume (x.ahead d)).front = d.advance name.length := by
      rw [Lexer.front, hfresh, hplace, hcursor]
    rw [Lexer.size, Lexer.size, hpending, hfront]
    show 2 * (d.advance name.length).left + 0 < 2 * d.left + 0
    omega
  refine ⟨_, k, collectUntil_of_next hdone hpeek (Grammar.Nesting.after_word hword stop {})
    (next_of_lookahead hahead) hsize hstop, ?_, ?_, ?_⟩
  · rw [hfront, hplace, hcursor]
  · rw [hprevious, hbehind, hcursor]
  · rw [hsame, hkept, hwarnings]
    rfl

end Lexer

namespace Grammar

/-- **A word before a brace is an expression**, and that of its text. -/
theorem expression_of_word {name u : Text} (hname : Text.isAsciiName.starts name = true)
    (stop : Stop) {s : State} (hrest : s.cursor.rest = name ++ '{' :: u) :
    ∃ e, e.text = name ∧
      expression stop s = .ok e { s with cursor := s.cursor.advance name.length } := by
  obtain ⟨t, k, hcollect, hfront, hprevious, hwarnings⟩ :=
    Lexer.collectUntil_of_word hname hrest s.options stop
  obtain ⟨c, v, hcons, hc, -⟩ := Text.exists_of_starts hname
  have hskip : s.cursor.skip Recognizer.trivia = s.cursor := by
    rw [Cursor.skip, Cursor.pass?, hrest, hcons, List.cons_append,
      Recognizer.trivia_eq_none (isBlank_of_ascii (isAsciiBody_of_start hc))
        (ne_of_start hc (by decide))]
    rfl
  refine ⟨⟨name, [t], s.cursor.line⟩, rfl, ?_⟩
  rw [expression_apply]
  simp only [hskip, hcollect, hfront, hprevious, hwarnings, List.append_nil, List.isEmpty_cons,
    Bool.false_eq_true, if_false, Cursor.textSince_advance, hrest, List.take_left]

end Grammar
end Stylesheet
