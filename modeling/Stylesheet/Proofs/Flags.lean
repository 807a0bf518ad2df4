import Stylesheet.Proofs.Collecting
import Stylesheet.Proofs.Seam
import Stylesheet.Proofs.Word

/-!
# Flags, for the lexer and for the parser

A flag is recognised twice.  The lexer reads it as a variable in the legacy form, takes the escapes
out of the name and compares that; an expression ends there.  The parser then looks for the flag by
a form of its own and compares the name as it is written.  Where the name has no escapes in it and
stands right behind the `!`, the two agree.  They do not where the name is the flag only without its
escapes (`EscapedFlag`), and where there is white space behind the `!` that only the parser passes
(`LooseFlag`); everywhere else they agree, and they end at the same place (`flag_iff`).
-/
namespace Stylesheet

/-! ### Words -/

namespace Text

/-- Characters that stand for themselves go on with a name as long as there are any. -/
theorem nameLength_body_append {t : Text} (h : ∀ c ∈ t, isNameBody c = true) (rest : Text) :
    nameLength (t ++ rest) = t.length + nameLength rest := by
  induction t with
  | nil => exact (Nat.zero_add _).symm
  | cons c t ih =>
    rw [List.cons_append, nameLength_of_body (h c (List.mem_cons_self ..)),
      ih fun d hd => h d (List.mem_cons_of_mem c hd), List.length_cons]
    omega

end Text

/-- A name that starts with an ASCII name takes what goes on behind that as well. -/
theorem Recognizer.identifier_word {w : Text} (h : Text.isAsciiName.starts w = true) (rest : Text) :
    identifier (w ++ rest) = some (w.length + rest.nameLength) := by
  obtain ⟨c, u, rfl, hstart, hescape, hhyphen, hu⟩ := Text.mem_of_starts h
  rw [List.cons_append, identifier, bareIdentifier, if_pos hstart,
    Text.nameLength_body_append fun d hd => (hu d hd).1]
  · rw [List.length_cons, Nat.add_right_comm]
  · rintro _ _ rfl
    exact absurd rfl hescape
  · rintro _ hc
    exact absurd (List.cons.inj hc).1 hhyphen

namespace Flag

variable {f : Flag} {w t u : Text} {n : Nat}

/-- A word that is the flag, in whatever case it is written. -/
def Spells (f : Flag) (w : Text) : Prop :=
  w.equalIgnoringCase f.word = true

theorem spells_iff : f.Spells w ↔ w.map Char.toLower = f.word := by
  have hword : f.word.map Char.toLower = f.word := by cases f <;> decide
  rw [Spells, Text.equalIgnoringCase, hword, beq_iff_eq]

theorem isAlpha_of_toLower {c : Char} (h : c.toLower.isAlpha = true) : c.isAlpha = true := by
  unfold Char.toLower at h
  split at h
  · next hupper =>
    have : c.isUpper = true := decide_eq_true hupper
    show (c.isUpper || c.isLower) = true
    rw [this, Bool.true_or]
  · exact h

theorem Spells.length (h : f.Spells w) : w.length = f.word.length := by
  rw [← spells_iff.mp h, List.length_map]

theorem Spells.isAlpha (h : f.Spells w) : ∀ c ∈ w, c.isAlpha = true := by
  have hword : f.word.all Char.isAlpha = true := by cases f <;> rfl
  intro c hc
  refine isAlpha_of_toLower (List.all_eq_true.mp hword _ ?_)
  rw [← spells_iff.mp h]
  exact List.mem_map_of_mem hc

theorem Spells.starts (h : f.Spells w) : Text.isAsciiName.starts w = true := by
  have halpha := h.isAlpha
  cases w with
  | nil =>
    have hlength := h.length
    cases f <;> cases hlength
  | cons c w =>
    show ((c.isAlpha || c == '_') && w.all fun c => c.isAlphanum || c == '_' || c == '-') = true
    rw [halpha c (List.mem_cons_self ..), Bool.true_or, Bool.true_and, List.all_eq_true]
    intro d hd
    rw [Char.isAlphanum, halpha d (List.mem_cons_of_mem c hd)]
    rfl

theorem Spells.unescape (h : f.Spells w) : Text.unescape w = w := by
  refine Text.unescape_of_not_mem fun hmem => ?_
  exact absurd (h.isAlpha _ hmem) (by decide)

/-- No word spells both flags. -/
theorem Spells.unique {g : Flag} (h : f.Spells w) (h' : g.Spells w) : g = f := by
  have hword := (spells_iff.mp h').symm.trans (spells_iff.mp h)
  cases f <;> cases g
  · rfl
  · exact absurd hword (by decide)
  · exact absurd hword (by decide)
  · rfl

/-- A word that is the flag is a name if nothing behind it goes on with one. -/
theorem identifier_iff :
    Recognizer.identifier t = some n ∧ f.Spells (t.take n) ↔
      n = f.word.length ∧ f.Spells (t.take n) ∧ Text.nameLength (t.drop n) = 0 := by
  refine ⟨fun ⟨hname, h⟩ => ?_, fun ⟨hn, h, hbehind⟩ => ?_⟩
  · have hle := Recognizer.stable_identifier.bounded hname
    have hlength : (t.take n).length = n := List.length_take_of_le hle
    have hword := Recognizer.identifier_word h.starts (t.drop n)
    rw [List.take_append_drop, hname, hlength] at hword
    have hall := Option.some.inj hword
    exact ⟨hlength.symm.trans h.length, h, by omega⟩
  · have hword := Recognizer.identifier_word h.starts (t.drop n)
    rw [List.take_append_drop, h.length, ← hn, hbehind] at hword
    exact ⟨hword, h⟩

theorem foldCase_eq_toLower {c : Char} (hs : c ≠ '\u017F') (hk : c ≠ '\u212A') :
    foldCase c = c.toLower := by
  rw [foldCase, if_neg hs, if_neg hk]

/-- In `important` there is no letter that another one folds onto than its capital. -/
theorem caseless_important :
    Recognizer.caseless important.word t = some n ↔
      n = important.word.length ∧ important.Spells (t.take n) := by
  rw [Recognizer.caseless_eq_some]
  refine ⟨fun ⟨h, hn⟩ => ⟨hn.symm, ?_⟩, fun ⟨hn, h⟩ => ⟨?_, hn.symm⟩⟩
  · rw [spells_iff, ← h, hn]
    refine List.map_congr_left fun c hc => (foldCase_eq_toLower ?_ ?_).symm
    · rintro rfl
      have hmem := List.mem_map_of_mem (f := foldCase) (hn ▸ hc)
      rw [h] at hmem
      exact absurd hmem (by decide)
    · rintro rfl
      have hmem := List.mem_map_of_mem (f := foldCase) (hn ▸ hc)
      rw [h] at hmem
      exact absurd hmem (by decide)
  · rw [← hn, ← spells_iff.mp h]
    refine List.map_congr_left fun c hc => foldCase_eq_toLower ?_ ?_
    · rintro rfl
      exact absurd (h.isAlpha _ hc) (by decide)
    · rintro rfl
      exact absurd (h.isAlpha _ hc) (by decide)

theorem any_isNameChar_eq_false :
    t.head?.any isNameChar = false ↔ Text.nameLength t = 0 ∧ t.head? ≠ some '\\' := by
  cases t with
  | nil => exact ⟨fun _ => ⟨rfl, nofun⟩, fun _ => rfl⟩
  | cons c t =>
    show isNameChar c = false ↔ _ ∧ some c ≠ some '\\'
    rw [isNameChar, Bool.or_eq_false_iff, beq_eq_false_iff_ne, ne_eq (some c), Option.some.injEq]
    refine and_congr_left fun hescape =>
      ⟨fun hbody => Text.nameLength_of_not_body hbody hescape t, ?_⟩
    intro hlength
    refine Bool.eq_false_iff.mpr fun hbody => ?_
    rw [Text.nameLength_of_body hbody] at hlength
    cases hlength

/-! ### What each of them takes for a flag -/

/-- What the lexer takes for the flag, a number of characters long. -/
def ReadAs (f : Flag) (t : Text) (n : Nat) : Prop :=
  ∃ x name, Lexeme.reference? t = some x ∧ x.kind = .var name true ∧ f.Spells name ∧ x.length = n

/-- What the parser takes for the flag, a number of characters long. -/
def TakenAs (f : Flag) (t : Text) (n : Nat) : Prop :=
  ∃ name, Grammar.bangName? t = some (name, n) ∧ f.Spells name

/-- A flag whose name has escapes in it. -/
def EscapedFlag (f : Flag) (t : Text) : Prop :=
  ∃ u n, t = '!' :: u ∧ Recognizer.identifier u = some n ∧ f.Spells (Text.unescape (u.take n)) ∧
    ¬ f.Spells (u.take n)

/-- A flag behind white space that is not `important`, that has white space beyond ASCII in front,
or that a backslash follows. -/
def LooseFlag (f : Flag) (t : Text) : Prop :=
  ∃ u n, t = '!' :: u ∧ Text.blankLength u ≠ 0 ∧
    Recognizer.identifier (u.drop (Text.blankLength u)) = some n ∧
    f.Spells ((u.drop (Text.blankLength u)).take n) ∧
    (f = default ∨ u.head?.any (0x7F < ·.toNat) = true ∨
      (u.drop (Text.blankLength u + n)).head? = some '\\')

theorem readAs_of_name (hname : Recognizer.identifier u = some n) {m : Nat} :
    f.ReadAs ('!' :: u) m ↔ f.Spells (Text.unescape (u.take n)) ∧ m = n + 1 := by
  have href : Lexeme.reference? ('!' :: u) =
      some { kind := .var (Text.unescape (u.take n)) true, length := n + 1 } := by
    rw [Lexeme.reference?, if_pos (.inr rfl), hname]
    rfl
  unfold ReadAs
  rw [href]
  constructor
  · rintro ⟨x, name, hx, hkind, h, rfl⟩
    cases hx
    cases hkind
    exact ⟨h, rfl⟩
  · rintro ⟨h, rfl⟩
    exact ⟨_, _, rfl, rfl, h, rfl⟩

/-- Without a name right behind it, the lexer knows only one flag. -/
theorem readAs_of_none (hname : Recognizer.identifier u = none) {m : Nat} :
    f.ReadAs ('!' :: u) m ↔ f = important ∧ Text.blankLength u ≠ 0 ∧
      ∃ n, (Recognizer.caseless important.word).notBefore isNameChar (u.drop (Text.blankLength u)) =
        some n ∧
        m = Text.blankLength u + n + 1 := by
  have href : Lexeme.reference? ('!' :: u) = Lexeme.reference?.spacedFlag? u := by
    rw [Lexeme.reference?, if_pos (.inr rfl), hname]
    rfl
  unfold ReadAs
  rw [href]
  refine ⟨?_, ?_⟩
  · rintro ⟨x, name, hx, hkind, h, rfl⟩
    obtain ⟨k, hk, hx⟩ := Option.bind_eq_some_iff.mp hx
    obtain ⟨n, hn, hx⟩ := Option.bind_eq_some_iff.mp hx
    cases hx
    cases hkind
    rw [Seam.blanks_apply] at hk
    split at hk
    · cases hk
    · next hblank =>
      cases hk
      refine ⟨?_, hblank, n, hn, rfl⟩
      obtain ⟨-, hspells⟩ := caseless_important.mp (Lexeme.notBefore_eq_some.mp hn).1
      exact hspells.unique h
  · rintro ⟨rfl, hblank, n, hn, rfl⟩
    have hk : Recognizer.blanks u = some (Text.blankLength u) := by
      rw [Seam.blanks_apply]
      exact if_neg hblank
    refine ⟨_, _, Option.bind_eq_some_iff.mpr ⟨_, hk, Option.bind_eq_some_iff.mpr ⟨n, hn, rfl⟩⟩,
      rfl, ?_, rfl⟩
    exact (caseless_important.mp (Lexeme.notBefore_eq_some.mp hn).1).2

theorem takenAs_iff {m : Nat} :
    f.TakenAs ('!' :: u) m ↔ ∃ n, Recognizer.identifier (u.drop (Text.blankLength u)) = some n ∧
      f.Spells ((u.drop (Text.blankLength u)).take n) ∧ m = 1 + Text.blankLength u + n := by
  unfold TakenAs Grammar.bangName?
  refine ⟨?_, ?_⟩
  · rintro ⟨name, hbang, h⟩
    obtain ⟨n, hn, hsome⟩ := Option.bind_eq_some_iff.mp hbang
    cases hsome
    exact ⟨n, hn, h, rfl⟩
  · rintro ⟨n, hn, h, rfl⟩
    exact ⟨_, Option.bind_eq_some_iff.mpr ⟨n, hn, rfl⟩, h⟩

/-- A name that becomes the flag without its escapes stands right behind the `!`. -/
theorem blankLength_of_name (hname : Recognizer.identifier u = some n)
    (h : f.Spells (Text.unescape (u.take n))) : Text.blankLength u = 0 := by
  obtain ⟨k, rfl⟩ :=
    Nat.exists_eq_succ_of_ne_zero (Nat.ne_of_gt (Recognizer.positive_identifier u n hname))
  cases u with
  | nil => rfl
  | cons x u =>
    have hblank : isBlank x = false := by
      refine Bool.eq_false_iff.mpr fun hblank => ?_
      have hescape : x ≠ '\\' := by
        rintro rfl
        exact absurd hblank (by decide)
      rw [List.take_succ_cons, Text.unescape_cons hescape] at h
      have hbody : isAsciiBody x = true := by
        rw [isAsciiBody, Char.isAlphanum, h.isAlpha x (List.mem_cons_self ..)]
        rfl
      rw [isBlank_of_ascii hbody] at hblank
      cases hblank
    rw [Text.blankLength, List.takeWhile_cons, hblank]
    rfl

/-- Behind white space of ASCII no name goes on, but white space beyond ASCII counts as a name. -/
theorem identifier_of_blank (hblank : Text.blankLength u ≠ 0) :
    (Recognizer.identifier u).isSome = u.head?.any (0x7F < ·.toNat) := by
  cases u with
  | nil => exact absurd rfl hblank
  | cons x u =>
    have hx : isBlank x = true := by
      refine Decidable.byContradiction fun hx => hblank ?_
      rw [Text.blankLength, List.takeWhile_cons, if_neg hx]
      rfl
    show _ = decide (0x7F < x.toNat)
    by_cases hascii : x.toNat ≤ 0x7F
    · rw [decide_eq_false (Nat.not_lt.mpr hascii)]
      have hmem := Grammar.mem_of_isBlank hx hascii
      simp only [List.mem_cons, List.not_mem_nil, or_false] at hmem
      rcases hmem with rfl | rfl | rfl | rfl | rfl | rfl <;> rfl
    · have hbeyond : 0x7F < x.toNat := Nat.lt_of_not_le hascii
      have hstart : isNameStart x = true := by
        rw [isNameStart, decide_eq_true hbeyond, Bool.or_true]
      rw [decide_eq_true hbeyond, Recognizer.identifier, Recognizer.bareIdentifier, if_pos hstart]
      · rfl
      · rintro _ _ rfl
        exact absurd hx (by decide)
      · rintro _ hc
        rw [(List.cons.inj hc).1] at hx
        exact absurd hx (by decide)

/-- What the lexer takes behind white space, in the parser's terms. -/
theorem readAs_of_blank (hblank : Text.blankLength u ≠ 0) {m : Nat} :
    f.ReadAs ('!' :: u) m ↔ f.TakenAs ('!' :: u) m ∧ ¬ f.LooseFlag ('!' :: u) := by
  have hfirst := identifier_of_blank hblank
  rw [takenAs_iff]
  cases hname : Recognizer.identifier u with
  | some k =>
    rw [hname] at hfirst
    rw [readAs_of_name hname]
    refine ⟨fun ⟨h, _⟩ => absurd (blankLength_of_name hname h) hblank, ?_⟩
    rintro ⟨⟨n, hn, h, -⟩, hloose⟩
    exact absurd ⟨u, n, rfl, hblank, hn, h, .inr (.inl hfirst.symm)⟩ hloose
  | none =>
    rw [hname] at hfirst
    rw [readAs_of_none hname]
    constructor
    · rintro ⟨rfl, -, n, hn, rfl⟩
      obtain ⟨hword, hbehind⟩ := Lexeme.notBefore_eq_some.mp hn
      obtain ⟨hlength, h⟩ := caseless_important.mp hword
      obtain ⟨hrest, hescape⟩ := any_isNameChar_eq_false.mp hbehind
      obtain ⟨hn, -⟩ := identifier_iff.mpr ⟨hlength, h, hrest⟩
      refine ⟨⟨n, hn, h, by omega⟩, ?_⟩
      rintro ⟨v, k, hv, -, hk, -, hodd⟩
      cases hv
      cases hn.symm.trans hk
      rw [List.drop_drop] at hescape
      rcases hodd with hodd | hodd | hodd
      · cases hodd
      · rw [← hfirst] at hodd
        cases hodd
      · exact hescape hodd
    · rintro ⟨⟨n, hn, h, rfl⟩, hloose⟩
      have hescape : (u.drop (Text.blankLength u + n)).head? ≠ some '\\' :=
        fun hodd => hloose ⟨u, n, rfl, hblank, hn, h, .inr (.inr hodd)⟩
      rw [← List.drop_drop] at hescape
      cases f with
      | default => exact absurd ⟨u, n, rfl, hblank, hn, h, .inl rfl⟩ hloose
      | important =>
        obtain ⟨hlength, -, hrest⟩ := identifier_iff.mp ⟨hn, h⟩
        refine ⟨rfl, hblank, n, ?_, by omega⟩
        exact Lexeme.notBefore_eq_some.mpr
          ⟨caseless_important.mpr ⟨hlength, h⟩, any_isNameChar_eq_false.mpr ⟨hrest, hescape⟩⟩

/-- What the lexer takes right behind the `!`, in the parser's terms. -/
theorem readAs_of_bare (hblank : Text.blankLength u = 0) {m : Nat} :
    f.ReadAs ('!' :: u) m ↔
      ∃ n, Recognizer.identifier u = some n ∧ f.Spells (Text.unescape (u.take n)) ∧ m = n + 1 := by
  cases hname : Recognizer.identifier u with
  | none =>
    rw [readAs_of_none hname]
    exact ⟨fun h => absurd hblank h.2.1, fun ⟨_, h, _⟩ => nomatch h⟩
  | some k =>
    rw [readAs_of_name hname]
    refine ⟨fun h => ⟨k, rfl, h⟩, ?_⟩
    rintro ⟨n, hn, h⟩
    cases hn
    exact h

theorem takenAs_of_bare (hblank : Text.blankLength u = 0) {m : Nat} :
    f.TakenAs ('!' :: u) m ↔
      ∃ n, Recognizer.identifier u = some n ∧ f.Spells (u.take n) ∧ m = n + 1 := by
  rw [takenAs_iff, hblank]
  simp only [List.drop_zero, Nat.add_comm 1]

/-- The parser takes what the lexer takes, unless the name has escapes in it. -/
theorem takenAs_of_readAs {m : Nat} (h : f.ReadAs t m) : f.TakenAs t m ∨ f.EscapedFlag t := by
  obtain ⟨u, rfl⟩ : ∃ u, t = '!' :: u := by
    obtain ⟨x, name, hx, hkind, -⟩ := h
    obtain ⟨-, name', legacy, hkind', hbang⟩ := Lexeme.reference?_eq_some hx
    cases hkind'.symm.trans hkind
    exact List.head?_eq_some_iff.mp (hbang rfl)
  by_cases hblank : Text.blankLength u = 0
  · obtain ⟨n, hn, hspells, rfl⟩ := (readAs_of_bare hblank).mp h
    by_cases hplain : f.Spells (u.take n)
    · exact .inl ((takenAs_of_bare hblank).mpr ⟨n, hn, hplain, rfl⟩)
    · exact .inr ⟨u, n, rfl, hn, hspells, hplain⟩
  · exact .inl ((readAs_of_blank hblank).mp h).1

/-- The lexer takes what the parser takes, unless there is white space that only the parser
passes. -/
theorem readAs_of_takenAs {m : Nat} (h : f.TakenAs t m) : f.ReadAs t m ∨ f.LooseFlag t := by
  obtain ⟨u, rfl⟩ : ∃ u, t = '!' :: u := by
    obtain ⟨name, hbang, -⟩ := h
    unfold Grammar.bangName? at hbang
    split at hbang
    · exact ⟨_, rfl⟩
    · cases hbang
  by_cases hblank : Text.blankLength u = 0
  · obtain ⟨n, hn, hspells, rfl⟩ := (takenAs_of_bare hblank).mp h
    exact .inl ((readAs_of_bare hblank).mpr ⟨n, hn, hspells.unescape.symm ▸ hspells, rfl⟩)
  · by_cases hloose : f.LooseFlag ('!' :: u)
    · exact .inr hloose
    · exact .inl ((readAs_of_blank hblank).mpr ⟨h, hloose⟩)

theorem EscapedFlag.readAs (h : f.EscapedFlag t) : (∃ m, f.ReadAs t m) ∧ ∀ m, ¬ f.TakenAs t m := by
  obtain ⟨u, n, rfl, hn, hspells, hplain⟩ := h
  have hblank := blankLength_of_name hn hspells
  refine ⟨⟨n + 1, (readAs_of_bare hblank).mpr ⟨n, hn, hspells, rfl⟩⟩, fun m htaken => ?_⟩
  obtain ⟨k, hk, hspells', -⟩ := (takenAs_of_bare hblank).mp htaken
  cases hn.symm.trans hk
  exact hplain hspells'

theorem EscapedFlag.mem (h : f.EscapedFlag t) : '\\' ∈ t := by
  obtain ⟨u, n, rfl, -, hspells, hplain⟩ := h
  refine Decidable.byContradiction fun hmem => hplain ?_
  rwa [Text.unescape_of_not_mem] at hspells
  exact fun hin => hmem (List.mem_cons_of_mem _ (List.mem_of_mem_take hin))

theorem LooseFlag.takenAs (h : f.LooseFlag t) : (∃ m, f.TakenAs t m) ∧ ∀ m, ¬ f.ReadAs t m := by
  obtain ⟨u, n, rfl, hblank, hn, hspells, -⟩ := id h
  refine ⟨⟨_, takenAs_iff.mpr ⟨n, hn, hspells, rfl⟩⟩, fun m hread => ?_⟩
  exact ((readAs_of_blank hblank).mp hread).2 h

end Flag

/-! ### At a place -/

theorem Lexeme.reference?_of_at? {inside : Bool} {t : Text} {x : Lexeme} (h : at? inside t = some x)
    {name : Text} {legacy : Bool} (hkind : x.kind = .var name legacy) : reference? t = some x := by
  cases takenBy_of_at? h with
  | reference found => exact found
  | string q found =>
    obtain ⟨⟨_, hother⟩, _⟩ := string?_eq_some found
    cases hother.symm.trans hkind
  | number found =>
    obtain ⟨_, _, _, hother⟩ := number?_eq_some found
    cases hother.symm.trans hkind
  | color found =>
    obtain ⟨_, _, hother⟩ := color?_eq_some found
    cases hother.symm.trans hkind
  | bool found =>
    obtain ⟨_, _, hother⟩ := bool?_eq_some found
    cases hother.symm.trans hkind
  | uri found =>
    obtain ⟨n, _, rfl⟩ := Option.map_eq_some_iff.mp found
    cases hkind
  | unicodeRange found =>
    obtain ⟨n, _, rfl⟩ := Option.map_eq_some_iff.mp found
    cases hkind
  | wordOp found =>
    obtain ⟨_, _, _, hother, _⟩ := wordOp?_eq_some found
    cases hother.symm.trans hkind
  | ident found =>
    obtain ⟨_, _, hother⟩ := ident?_eq_some found
    cases hother.symm.trans hkind
  | symbol found =>
    obtain ⟨_, _, _, _, hother⟩ := symbol?_eq_some found
    cases hother.symm.trans hkind

namespace Lexer

theorem Consumes.unique {l m n : Lexer} {ts : List Token} (h : Consumes l ts m)
    (h' : Consumes l ts n) : m = n := by
  induction h with
  | nil =>
    cases h'
    rfl
  | cons first _ ih =>
    cases h' with
    | cons first' others' =>
      rw [first] at first'
      cases first'
      exact ih others'

/-- The next token is the flag, and it ends at another place. -/
def ReadsFlag (f : Flag) (l : Lexer) (d : Cursor) : Prop :=
  ∃ t m name, l.next = .ok (some t) m ∧ t.kind = .var name true ∧ f.Spells name ∧ m.cursor = d

theorem ReadsFlag.readAs {f : Flag} {l : Lexer} {d : Cursor} (hfresh : l.lookahead = none)
    (h : l.ReadsFlag f d) : l.pending = none ∧ ∃ n, f.ReadAs l.tokenStart.rest n ∧
    d = l.tokenStart.advance n := by
  obtain ⟨t, m, name, hnext, hkind, hspells, rfl⟩ := h
  obtain ⟨ahead, k, hread, rfl, rfl⟩ := exists_of_next hfresh hnext
  obtain ⟨-, hstart, htoken⟩ := (Rules.ends_read interpolation l).of_ok hread
  have hpending := htoken.pending_of_ne_string fun v q hstring => by
    rw [hkind] at hstring
    cases hstring
  rw [cursor_consume]
  generalize k.cursor = d at htoken
  cases htoken with
  | segment c q x pending => 
    rw [hpending] at pending
    cases pending
  | special c head body parts inner => cases hkind
  | lexeme c x pending found =>
    refine ⟨hpending, x.length, ⟨x, name, ?_, hkind, hspells, rfl⟩, ?_⟩
    · rw [← hstart]
      exact Lexeme.reference?_of_at? found hkind
    · rw [← hstart]
      rfl

theorem readsFlag_of_readAs {f : Flag} {l : Lexer} {n : Nat} (hfresh : l.lookahead = none)
    (hpending : l.pending = none) (h : f.ReadAs l.tokenStart.rest n) :
    l.ReadsFlag f (l.tokenStart.advance n) := by
  obtain ⟨x, name, hx, hkind, hspells, rfl⟩ := h
  rw [tokenStart_of_pending_none hpending] at hx ⊢
  have hend : l.skipTrivia.cursor.atEnd = false := by
    refine Bool.eq_false_iff.mpr fun hend => ?_
    rw [Cursor.atEnd, List.isEmpty_iff] at hend
    rw [hend] at hx
    cases hx
  have hfound : Lexeme.at? (0 < l.depth) l.skipTrivia.cursor.rest = some x := by
    rw [Lexeme.at?, Lexeme.leading?, hx]
    rfl
  refine ⟨_, _, name, Rules.next_of_read hfresh (Rules.read_lexeme _ hpending hend hfound), hkind,
    hspells, ?_⟩
  rw [cursor_consume]

/-- Whether the next token is the flag. -/
def showsFlag (l : Lexer) (f : Flag) : Bool :=
  answers l.next fun found _ =>
    match found.map Token.kind with
    | some (.var name true) => name.equalIgnoringCase f.word
    | _ => false

theorem readsFlag_of_showsFlag {f : Flag} {l : Lexer} (h : l.showsFlag f = true) :
    ∃ d, l.ReadsFlag f d := by
  obtain ⟨found, m, hnext, htest⟩ := exists_of_answers h
  split at htest
  · next name hfound =>
    obtain ⟨t, rfl, hkind⟩ := Option.map_eq_some_iff.mp hfound
    exact ⟨m.cursor, t, m, name, hnext, hkind, htest, rfl⟩
  · cases htest

end Lexer

namespace Grammar

/-- The parser passes the flag, and it ends at another place. -/
def TakesFlag (f : Flag) (s : State) (d : Cursor) : Prop :=
  flag f s = .ok true { s with cursor := d }

theorem flag_apply (f : Flag) (s : State) :
    flag f s =
      match bangName? (s.cursor.skip Recognizer.trivia).rest with
      | some (name, n) =>
        if name.equalIgnoringCase f.word then
          .ok true { s with cursor := (s.cursor.skip Recognizer.trivia).advance n }
        else .ok false s
      | none => .ok false s := by
  unfold flag here moveTo
  simp only [bind_apply, get_apply, pure_apply, skipTrivia_apply]
  cases bangName? (s.cursor.skip Recognizer.trivia).rest with
  | none => rfl
  | some found =>
    simp only
    split <;> rfl

theorem takesFlag_iff {f : Flag} {s : State} {d : Cursor} :
    TakesFlag f s d ↔ ∃ n, f.TakenAs (s.cursor.skip Recognizer.trivia).rest n ∧
      d = (s.cursor.skip Recognizer.trivia).advance n := by
  unfold TakesFlag Flag.TakenAs
  rw [flag_apply]
  cases bangName? (s.cursor.skip Recognizer.trivia).rest with
  | none => exact ⟨nofun, fun ⟨_, ⟨_, h, _⟩, _⟩ => nomatch h⟩
  | some found =>
    obtain ⟨name, n⟩ := found
    simp only
    by_cases h : name.equalIgnoringCase f.word = true
    · rw [if_pos h]
      constructor
      · intro hd
        have hstate := (EStateM.Result.ok.inj hd).2
        exact ⟨n, ⟨name, rfl, h⟩, (congrArg State.cursor hstate).symm⟩
      · rintro ⟨_, ⟨_, hname, -⟩, rfl⟩
        cases hname
        rfl
    · rw [if_neg h]
      constructor
      · intro hd
        cases (EStateM.Result.ok.inj hd).1
      · rintro ⟨_, ⟨_, hname, hspells⟩, rfl⟩
        cases hname
        exact absurd hspells h

theorem flag_eq_false {f : Flag} {s : State}
    (h : ∀ n, ¬ f.TakenAs (s.cursor.skip Recognizer.trivia).rest n) : flag f s = .ok false s := by
  rw [flag_apply]
  split
  · next name n hbang => exact if_neg fun hspells => h n ⟨name, hbang, hspells⟩
  · rfl

/-- An expression leaves the parser right before the token at which its lexer stopped. -/
theorem cursor_of_expression {stop : Stop} {s t : State} {e : Expression} {m : Lexer}
    (h : expression stop s = .ok e t)
    (hm : Lexer.Consumes (.ofCursor (s.cursor.skip Recognizer.trivia) s.options) e.tokens m) :
    t.cursor = m.tokenStart := by
  obtain ⟨k, hcollect, -, -, hfront⟩ := written_of_expression h
  obtain ⟨n, _, hn, -, -, hk⟩ :=
    (Lexer.ends_collectUntil_consumes rfl (Nesting.after stop) {}).of_ok hcollect
  cases hn.unique hm
  rw [hfront, Lexer.front_of_lookahead (by rw [hk]; exact hn.fresh rfl), hk]
  rfl

/-- **The lexer and the parser agree on flags**, but not on all.  A name with escapes is a flag only
for the lexer, and white space behind the `!` is passed in some places only by the parser; anywhere
else a lexer reads the flag if and only if the parser passes it, up to the same place.  So where an
expression stops at the flag, the parser passes it, unless its name has escapes. -/
theorem flag_iff (f : Flag) (s : State) :
    let t := (s.cursor.skip Recognizer.trivia).rest
    let l := Lexer.ofCursor s.cursor s.options
    (f.EscapedFlag t → (∃ d, l.ReadsFlag f d) ∧ flag f s = .ok false s) ∧
      (f.LooseFlag t → (∃ d, TakesFlag f s d) ∧ ∀ d, ¬ l.ReadsFlag f d) ∧
      (¬ f.EscapedFlag t → ¬ f.LooseFlag t → ∀ d, l.ReadsFlag f d ↔ TakesFlag f s d) ∧
      ∀ (stop : Stop) (before : State) (e : Expression) (m : Lexer) (d : Cursor),
        expression stop before = .ok e s →
        Lexer.Consumes (.ofCursor (before.cursor.skip Recognizer.trivia) before.options)
        e.tokens m →
        m.ReadsFlag f d → TakesFlag f s d ∨ f.EscapedFlag t := by
  intro t l
  have hreads : ∀ d, l.ReadsFlag f d ↔ ∃ n, f.ReadAs t n ∧
      d = (s.cursor.skip Recognizer.trivia).advance n := by
    intro d
    refine ⟨fun h => (h.readAs rfl).2, ?_⟩
    rintro ⟨n, h, rfl⟩
    exact Lexer.readsFlag_of_readAs rfl rfl h
  refine ⟨fun h => ?_, fun h => ?_, fun hescaped hloose d => ?_, ?_⟩
  · obtain ⟨⟨n, hn⟩, hnot⟩ := h.readAs
    exact ⟨⟨_, (hreads _).mpr ⟨n, hn, rfl⟩⟩, flag_eq_false hnot⟩
  · obtain ⟨⟨n, hn⟩, hnot⟩ := h.takenAs
    refine ⟨⟨_, takesFlag_iff.mpr ⟨n, hn, rfl⟩⟩, fun d hd => ?_⟩
    obtain ⟨k, hk, -⟩ := (hreads d).mp hd
    exact hnot k hk
  · rw [hreads, takesFlag_iff]
    refine exists_congr fun n => and_congr_left fun _ => ⟨fun h => ?_, fun h => ?_⟩
    · exact (Flag.takenAs_of_readAs h).resolve_right hescaped
    · exact (Flag.readAs_of_takenAs h).resolve_right hloose
  · intro stop before e m d hexpression hconsumes hm
    have hplace := cursor_of_expression hexpression hconsumes
    obtain ⟨hpending, n, hn, rfl⟩ := hm.readAs (hconsumes.fresh rfl)
    have hskip : s.cursor.skip Recognizer.trivia = m.tokenStart := by
      rw [hplace, Lexer.tokenStart_of_pending_none hpending]
      exact congrArg Lexer.cursor (Lexer.skipTrivia_skipTrivia m)
    rw [← hskip] at hn ⊢
    exact (Flag.takenAs_of_readAs hn).imp_left fun htaken => takesFlag_iff.mpr ⟨n, htaken, rfl⟩

/-- A flag in capitals behind a value, which the parser passes. -/
theorem flag_behind_value :
    let before : State := { cursor := .start "b !IMPORTANT;".toList 1 0, options := {} }
    ∃ e s m d, expression .statement before = .ok e s ∧
      Lexer.Consumes (.ofCursor (before.cursor.skip Recognizer.trivia) before.options) e.tokens m ∧
      m.ReadsFlag .important d ∧ TakesFlag .important s d := by
  intro before
  obtain ⟨e, s, hexpression, htest⟩ := exists_of_answers (r := expression .statement before)
    (p := fun e s => decide ((s.cursor.skip Recognizer.trivia).rest = "!IMPORTANT;".toList) &&
      answers (Lexer.next (.ofCursor (before.cursor.skip Recognizer.trivia) before.options))
      fun found m =>
        decide (found.isSome ∧ found.toList = e.tokens) && m.showsFlag .important)
    (by decide +kernel)
  obtain ⟨hplace, hlexer⟩ := Bool.and_eq_true_iff.mp htest
  obtain ⟨found, m, hfirst, hbehind⟩ := exists_of_answers hlexer
  obtain ⟨htokens, hflag⟩ := Bool.and_eq_true_iff.mp hbehind
  obtain ⟨hsome, htokens⟩ := of_decide_eq_true htokens
  obtain ⟨t, rfl⟩ := Option.isSome_iff_exists.mp hsome
  obtain ⟨d, hreads⟩ := Lexer.readsFlag_of_showsFlag hflag
  have hconsumes : Lexer.Consumes (.ofCursor (before.cursor.skip Recognizer.trivia) before.options)
      e.tokens m := by
    rw [← htokens]
    exact .cons hfirst (.nil m)
  have htakes := (flag_iff .important s).2.2.2 .statement before e m d hexpression hconsumes hreads
  refine ⟨e, s, m, d, hexpression, hconsumes, hreads, htakes.resolve_right ?_⟩
  intro hescaped
  have hmem := hescaped.mem
  rw [of_decide_eq_true hplace] at hmem
  exact absurd hmem (by decide)

/-- A flag with an escape in its name.  The expression stops there, and the parser does not pass
it. -/
theorem flag_escaped :
    let before : State := { cursor := .start "b !\\important;".toList 1 0, options := {} }
    ∃ e s d, expression .statement before = .ok e s ∧
      (Lexer.ofCursor s.cursor s.options).ReadsFlag .important d ∧
      flag .important s = .ok false s := by
  intro before
  obtain ⟨e, s, hexpression, htest⟩ := exists_of_answers (r := expression .statement before)
    (p := fun e s => (Lexer.ofCursor s.cursor s.options).showsFlag .important &&
      answers (flag .important s) fun taken t => decide (taken = false ∧ t = s))
    (by decide +kernel)
  obtain ⟨hshows, hleft⟩ := Bool.and_eq_true_iff.mp htest
  obtain ⟨d, hreads⟩ := Lexer.readsFlag_of_showsFlag hshows
  obtain ⟨taken, t, hflag, hsame⟩ := exists_of_answers hleft
  obtain ⟨rfl, rfl⟩ := of_decide_eq_true hsame
  exact ⟨e, t, d, hexpression, hreads, hflag⟩

end Grammar
end Stylesheet
