import Stylesheet.Proofs.Cutoff
import Stylesheet.Proofs.FunctionPieces
import Stylesheet.Proofs.Splitting

/-!
# Keywords are whole words

Whether a keyword ends is asked of the one character behind it, and a backslash counts as going on
with a name whatever follows it.  A name itself goes on over a backslash only if it escapes
something.  The two notions differ at a backslash before a line end or at the end of the text
(`Text.Stranded`): a name stops there, and a keyword is none.  But no token starts with such a
backslash (`Lexer.Readable.not_stranded`), so a lexer that has stopped there gives no further token,
and no end of the text either.  In a text that is read to its end the keywords are therefore the
whole words, and what ends like a name ends where no name goes on (`Lexer.words_are_whole`).
-/
namespace Stylesheet

/-- A token that ends like a name: a variable, a color, a truth value, an identifier or an operator
that is a word. -/
def TokenKind.EndsLikeName : TokenKind → Prop
  | .var _ _ => True
  | .color _ => True
  | .bool _ => True
  | .ident _ => True
  | .op o => o = .and ∨ o = .or ∨ o = .not
  | _ => False

theorem TokenKind.EndsLikeName.ne {kind other : TokenKind} (h : kind.EndsLikeName)
    (hother : ¬ other.EndsLikeName) : kind ≠ other := by
  rintro rfl
  exact hother h

namespace Text

/-- The end of the text, or a character that no name goes on with. -/
def BreaksName (t : Text) : Prop :=
  ∀ c ∈ t.head?, isNameChar c = false

/-- A backslash that escapes nothing a name may hold. -/
def Stranded (t : Text) : Prop :=
  ∃ u, t = '\\' :: u ∧ ∀ c ∈ u.head?, isEscapable c = false

variable {t : Text} {n : Nat}

theorem breaksName_iff : t.BreaksName ↔ t.head?.any isNameChar = false := by
  cases t <;> simp [BreaksName]

/-- A name goes on as far as it can. -/
theorem nameLength_end (t : Text) :
    BreaksName (t.drop (nameLength t)) ∨ Stranded (t.drop (nameLength t)) := by
  fun_induction nameLength t with
  | case1 c t _ ih => exact ih
  | case2 c t hc =>
    refine .inr ⟨c :: t, rfl, ?_⟩
    rintro _ ⟨⟩
    exact Bool.eq_false_iff.mpr hc
  | case3 c t _ _ ih => exact ih
  | case4 c t hescape hc =>
    by_cases hbackslash : c = '\\'
    · cases t with
      | nil =>
        refine .inr ⟨[], by rw [hbackslash]; rfl, ?_⟩
        rintro _ ⟨⟩
      | cons d u => exact absurd rfl (hescape d u hbackslash)
    · left
      rintro _ ⟨⟩
      rw [isNameChar, Bool.eq_false_iff.mpr hc, Bool.false_or]
      exact beq_false_of_ne hbackslash
  | case5 =>
    left
    rintro _ ⟨⟩

theorem bareIdentifier_end (h : Recognizer.bareIdentifier t = some n) :
    BreaksName (t.drop n) ∨ Stranded (t.drop n) := by
  rcases Recognizer.bareIdentifier_eq_some.mp h with ⟨c, v, rfl, -, rfl⟩ | ⟨c, v, rfl, -, rfl⟩
  · exact nameLength_end v
  · exact nameLength_end v

theorem identifier_end (h : Recognizer.identifier t = some n) :
    BreaksName (t.drop n) ∨ Stranded (t.drop n) := by
  unfold Recognizer.identifier at h
  split at h
  · next v =>
    obtain ⟨m, hm, rfl⟩ := Option.map_eq_some_iff.mp h
    show BreaksName (v.drop m) ∨ Stranded (v.drop m)
    exact bareIdentifier_end hm
  · exact bareIdentifier_end h

end Text

namespace Lexeme

variable {inside : Bool} {t : Text} {x : Lexeme}

/-! ### Where a token ends -/

theorem breaks_of_word {w : String} {kind : TokenKind} (h : word? w kind t = some x) :
    Text.BreaksName (t.drop x.length) := by
  obtain ⟨n, hn, rfl⟩ := Option.map_eq_some_iff.mp h
  exact Text.breaksName_iff.mpr (notBefore_eq_some.mp hn).2

theorem breaks_of_color (h : color? t = some x) : Text.BreaksName (t.drop x.length) := by
  obtain ⟨v, rfl⟩ := hash_of_color? h
  rw [color?_eq] at h
  obtain ⟨n, -, hcolor⟩ := Option.bind_eq_some_iff.mp h
  obtain ⟨color, -, hend⟩ := Option.bind_eq_some_iff.mp hcolor
  split at hend
  · cases hend
  · next hbehind =>
    cases hend
    exact Text.breaksName_iff.mpr (Bool.eq_false_iff.mpr hbehind)

theorem end_of_reference (h : reference? t = some x) :
    Text.BreaksName (t.drop x.length) ∨ Text.Stranded (t.drop x.length) := by
  cases t with
  | nil => cases h
  | cons c t =>
    rw [reference?] at h
    split at h
    · split at h
      · next n hname =>
        cases h
        show Text.BreaksName (t.drop n) ∨ Text.Stranded (t.drop n)
        exact Text.identifier_end hname
      · split at h
        · obtain ⟨n, -, hflag⟩ := Option.bind_eq_some_iff.mp h
          obtain ⟨m, hm, hx⟩ := Option.bind_eq_some_iff.mp hflag
          cases hx
          have hbehind := (notBefore_eq_some.mp hm).2
          rw [List.drop_drop] at hbehind
          exact .inl (Text.breaksName_iff.mpr hbehind)
        · cases h
    · cases h

/-- **What ends like a name ends where no name goes on, or at a backslash.** -/
theorem end_of_at? (h : at? inside t = some x) (hkind : x.kind.EndsLikeName) :
    Text.BreaksName (t.drop x.length) ∨ Text.Stranded (t.drop x.length) := by
  cases takenBy_of_at? h with
  | reference found => exact end_of_reference found
  | color found => exact .inl (breaks_of_color found)
  | bool found =>
    obtain ⟨w, -, kind, hword⟩ := word?_of_bool? found
    exact .inl (breaks_of_word hword)
  | wordOp found =>
    obtain ⟨w, -, kind, hword⟩ := word?_of_wordOp? found
    exact .inl (breaks_of_word hword)
  | ident found =>
    obtain ⟨n, hname, rfl⟩ := Option.map_eq_some_iff.mp found
    exact Text.identifier_end hname
  -- None of the other rules gives a token of these kinds.
  | string q found =>
    obtain ⟨⟨v, hstring⟩, -⟩ := string?_eq_some found
    exact absurd hstring (hkind.ne id)
  | number found =>
    obtain ⟨-, v, unit, hnumber⟩ := number?_eq_some found
    exact absurd hnumber (hkind.ne id)
  | uri found =>
    obtain ⟨n, -, rfl⟩ := Option.map_eq_some_iff.mp found
    exact absurd hkind id
  | unicodeRange found =>
    obtain ⟨n, -, rfl⟩ := Option.map_eq_some_iff.mp found
    exact absurd hkind id
  | symbol found =>
    obtain ⟨-, o, ho, -, hop⟩ := symbol?_eq_some found
    refine absurd hop (hkind.ne ?_)
    have hsymbols : ∀ o ∈ Op.symbols, ¬ (o = .and ∨ o = .or ∨ o = .not) := by decide
    split
    · rintro (hword | hword | hword) <;> cases hword
    · exact hsymbols o ho

/-! ### Words are no identifiers -/

/-- Where no name goes on with a word, the rules for words come before that for identifiers. -/
theorem ne_ident_of_word {w : String} (hw : w ∈ words) {v : Text} (hv : v.BreaksName)
    (h : at? inside (w.toList ++ v) = some x) (name : Text) : x.kind ≠ .ident name := by
  have hword : ∀ kind, word? w kind (w.toList ++ v) = some { kind, length := w.toList.length } := by
    intro kind
    have hliteral : Recognizer.literal w.toList (w.toList ++ v) = some w.toList.length :=
      Recognizer.literal_eq_some.mpr ⟨List.prefix_append _ v, rfl⟩
    have hbehind : ((w.toList ++ v).drop w.toList.length).head?.any isNameChar = false := by
      rw [List.drop_left]
      exact Text.breaksName_iff.mp hv
    rw [word?, notBefore_eq_some.mpr ⟨hliteral, hbehind⟩]
    rfl
  -- One of the rules for words fits.
  have hrules : bool? (w.toList ++ v) = none → wordOp? (w.toList ++ v) ≠ none := by
    intro hbool hop
    obtain ⟨htrue, hfalse⟩ := orElse_eq_none_iff.mp hbool
    obtain ⟨hand, hrest⟩ := orElse_eq_none_iff.mp hop
    obtain ⟨hor, hnot⟩ := orElse_eq_none_iff.mp hrest
    simp only [words, List.mem_cons, List.not_mem_nil, or_false] at hw
    rcases hw with rfl | rfl | rfl | rfl | rfl
    · cases htrue.symm.trans (hword _)
    · cases hfalse.symm.trans (hword _)
    · cases hand.symm.trans (hword _)
    · cases hor.symm.trans (hword _)
    · cases hnot.symm.trans (hword _)
  rw [at?_word hw] at h
  rcases Option.or_eq_some_iff.mp h with hbool | ⟨hnobool, h⟩
  · obtain ⟨-, b, hkind⟩ := bool?_eq_some hbool
    rw [hkind]
    rintro ⟨⟩
  rcases Option.or_eq_some_iff.mp h with hop | ⟨hnoop, -⟩
  · obtain ⟨-, o, -, hkind, -⟩ := wordOp?_eq_some hop
    rw [hkind]
    rintro ⟨⟩
  · exact absurd hnoop (hrules hnobool)

/-- No token starts with a backslash that escapes nothing. -/
theorem at?_stranded (inside : Bool) (h : t.Stranded) : at? inside t = none := by
  obtain ⟨u, rfl, hu⟩ := h
  have hident : ident? ('\\' :: u) = none := by
    cases u with
    | nil => rfl
    | cons c u =>
      have hname : Recognizer.identifier ('\\' :: c :: u) = none :=
        if_neg (Bool.eq_false_iff.mp (hu c rfl))
      rw [ident?, hname]
      rfl
  have hleading : leading? ('\\' :: u) = none := rfl
  have hword : wordOp? ('\\' :: u) = none := rfl
  have hsymbol : symbol? inside ('\\' :: u) = none := rfl
  simp only [at?, hleading, trailing?, hword, hident, hsymbol]
  split <;> rfl

end Lexeme

/-- What the text of a token of some kind and the text behind it say of words. -/
structure TokenKind.WholeWord (kind : TokenKind) (text behind : Text) : Prop where
  /-- An identifier is no keyword. -/
  keyword : ∀ name, kind = .ident name → ∀ w ∈ Lexeme.words, text ≠ w.toList
  ends : kind.EndsLikeName → behind.BreaksName

namespace Lexer

variable {l m : Lexer} {u : Token} {ts : List Token} {ahead : Lookahead} {d : Cursor}

/-- What is neither a string nor a special function is found by the rules for lexemes. -/
theorem Rules.TokenAt.exists_lexeme (h : Rules.TokenAt interpolation l ahead d)
    (hstring : ∀ v q, ahead.token.kind ≠ .string v q)
    (hspecial : ∀ ps, ahead.token.kind ≠ .special ps) :
    ∃ x, Lexeme.at? (0 < l.depth) ahead.start.rest = some x ∧ x.kind = ahead.token.kind ∧
      d = ahead.start.advance x.length := by
  cases h with
  | segment c q x _ found =>
    obtain ⟨⟨v, hkind⟩, -⟩ := Lexeme.segment?_eq_some found
    exact absurd hkind (hstring v q)
  | lexeme c x _ found => exact ⟨x, found, rfl, rfl⟩
  | special c head body parts inner => exact absurd rfl (hspecial _)

/-- **A lexer that stands at a backslash that escapes nothing cannot go on.** -/
theorem Readable.not_stranded (h : l.Readable) (hpending : l.pending = none) :
    ¬ l.cursor.rest.Stranded := by
  rintro ⟨v, hrest, hv⟩
  have hstart : l.tokenStart = l.cursor := by
    rw [tokenStart_of_pending_none hpending, skipTrivia_eq]
    rw [hrest]
    exact Recognizer.trivia_eq_none (by decide) (by decide)
  rcases h with ⟨-, hend⟩ | ⟨ahead, d, htoken, hplace⟩
  · rw [hstart, Cursor.atEnd, hrest] at hend
    cases hend
  · rw [hstart] at hplace
    rw [← hplace] at hrest
    cases htoken with
    | segment c q x pending => rw [hpending] at pending; cases pending
    | lexeme c x _ found =>
      rw [show c.rest = _ from hrest, Lexeme.at?_stranded _ ⟨v, rfl, hv⟩] at found
      cases found
    | special c head body parts inner _ begins =>
      have hnone : Recognizer.specialHead ('\\' :: v) = none := rfl
      rw [show c.rest = _ from hrest, hnone] at begins
      cases begins

/-- **The next token is a whole word**, if the lexer can go on behind it. -/
theorem wholeWord_of_next (hfresh : l.lookahead = none) (h : next l = .ok (some u) m)
    (hm : m.Readable) : u.kind.WholeWord (m.cursor.textSince l.tokenStart) m.cursor.rest := by
  obtain ⟨ahead, htoken, rfl, hstart⟩ := token_of_next hfresh h
  have hends : ahead.token.kind.EndsLikeName → m.cursor.rest.BreaksName := by
    intro hkind
    have hstuck : ¬ m.cursor.rest.Stranded := by
      apply hm.not_stranded
      apply pending_of_next h
      exact hkind.ne (by rintro (hword | hword | hword) <;> cases hword)
    obtain ⟨x, hfound, hx, hplace⟩ :=
      htoken.exists_lexeme (fun _ _ => hkind.ne id) fun _ => hkind.ne id
    rw [hplace, Cursor.rest_advance] at hstuck ⊢
    exact (Lexeme.end_of_at? hfound (hx ▸ hkind)).resolve_right hstuck
  refine ⟨fun name hname w hw htext => ?_, hends⟩
  have hkind : ahead.token.kind.EndsLikeName := by rw [hname]; trivial
  obtain ⟨x, hfound, hx, -⟩ := htoken.exists_lexeme (fun _ _ => hkind.ne id) fun _ => hkind.ne id
  rw [← hstart] at htext
  rw [htoken.before.rest_eq, htext] at hfound
  exact Lexeme.ne_ident_of_word hw (hends hkind) hfound name (hx.trans hname)

/-- **Keywords are exactly the whole words.**  Take a text all tokens of which can be read.  None of
the identifiers among them has the text of a keyword.  Behind each identifier, variable, color,
truth value and operator that is a word the text ends, or a character stands that no name goes on
with.  The same holds of the tokens inside special functions, however deep. -/
theorem words_are_whole {t : Text} {line column : Nat} {options : Options}
    (h : all (ofText t line column options) = .ok ts m) :
    (∀ us u vs, ts = us ++ u :: vs → ∃ l n, Consumes (ofText t line column options) us l ∧
      next l = .ok (some u) n ∧
      u.kind.WholeWord (n.previousEnd.textSince l.tokenStart) n.previousEnd.rest) ∧
    ∀ v ∈ ts, ∀ u, u.Within v → ∃ l n, (Cursor.start t line column).Before l.cursor ∧
      l.lookahead = none ∧ next l = .ok (some u) n ∧
      u.kind.WholeWord (n.previousEnd.textSince l.tokenStart) n.previousEnd.rest := by
  have hfresh : (ofText t line column options).lookahead = none := rfl
  obtain ⟨k, hconsumes, hend⟩ := consumes_of_all hfresh h
  have hk : k.Readable := .inl (end_of_next_none (hconsumes.fresh hfresh) hend)
  -- A token that is consumed ends where the lexer then stands.
  have hwhole : ∀ {u : Token} {l n : Lexer}, l.lookahead = none → next l = .ok (some u) n →
      n.Readable →
      u.kind.WholeWord (n.previousEnd.textSince l.tokenStart) n.previousEnd.rest := by
    intro u l n hl hnext hn
    rw [(Consumes.cons hnext (.nil n)).previousEnd (List.cons_ne_nil _ _)]
    exact wholeWord_of_next hl hnext hn
  refine ⟨?_, fun v hv u hu => ?_⟩
  · rintro us u vs rfl
    obtain ⟨l, n, hus, hl, hnext, hn⟩ := hconsumes.next_of_append hfresh hk
    exact ⟨l, n, hus, hnext, hwhole hl hnext hn⟩
  · obtain ⟨us, vs, rfl⟩ := List.append_of_mem hv
    obtain ⟨l, n, hus, hl, hnext, hn⟩ := hconsumes.next_of_append hfresh hk
    have hahead : (Cursor.start t line column).Before l.cursor := hus.before hfresh
    obtain ⟨ahead, htoken, hv, hstart⟩ := token_of_next hl hnext
    rcases next_of_within hu htoken hv with rfl | ⟨l', n', hahead', hl', hnext', hn'⟩
    · exact ⟨l, n, hahead, hl, hnext, hwhole hl hnext hn⟩
    · rw [hstart] at hahead'
      have hplace := hahead.trans ((before_tokenStart l).trans hahead')
      exact ⟨l', n', hplace, hl', hnext', hwhole hl' hnext' hn'⟩

/-- A name that starts with a keyword, keywords, and words inside a special function. -/
theorem words_are_whole_true_ish :
    ∃ ts m, all (ofText "true-ish not #fff ! important calc(#\x7bnot b\x7d)".toList 1 0 {}) =
      .ok ts m ∧
      ts.length = 5 ∧
      (∀ us u vs, ts = us ++ u :: vs →
        ∃ l n,
        Consumes (ofText "true-ish not #fff ! important calc(#\x7bnot b\x7d)".toList 1 0 {}) us l ∧
          next l = .ok (some u) n ∧
          u.kind.WholeWord (n.previousEnd.textSince l.tokenStart) n.previousEnd.rest) ∧
      ∀ v ∈ ts, ∀ u, u.Within v → ∃ l n,
        (Cursor.start "true-ish not #fff ! important calc(#\x7bnot b\x7d)".toList 1 0).Before
          l.cursor ∧
          l.lookahead = none ∧ next l = .ok (some u) n ∧
          u.kind.WholeWord (n.previousEnd.textSince l.tokenStart) n.previousEnd.rest := by
  obtain ⟨ts, m, hall, hlength⟩ := exists_of_answers
    (r := all (ofText "true-ish not #fff ! important calc(#\x7bnot b\x7d)".toList 1 0 {}))
    (p := fun ts _ => decide (ts.length = 5)) (by decide +kernel)
  obtain ⟨hown, hinside⟩ := words_are_whole hall
  exact ⟨ts, m, hall, of_decide_eq_true hlength, hown, hinside⟩

end Lexer
end Stylesheet
