import Stylesheet.Proofs.Collecting
import Stylesheet.Proofs.SpecialFunction

/-!
# The warnings of a lexer

A lexer warns of a legacy variable when it consumes the token, unless it is a flag.  What is inside
a special function is read by lexers of its own, and their warnings come with the token.
`Token.deprecations` lists the warnings that belong to a token by what it is, and
`Lexer.told_of_consumes` says that they are what a lexer has warned of behind some tokens: on the
way through the lexers in between none is lost, comes twice or changes its place.

A legacy variable is written with a `!`.  Tokens from a text without one give no warnings, unless a
special function in that text reads past its end (`Lexer.Overruns`): such a one may come upon legacy
variables that stand behind the text.  A text without either is `Lexer.Bare`.
-/
namespace Stylesheet

/-! ### The warnings that belong to tokens -/

mutual

/-- The warnings that belong to a token. -/
def Token.deprecations (file : Option String) : Token → List Deprecation
  | ⟨kind, location⟩ => kind.deprecations file location.line

/-- The warnings that belong to a token on a line: one for a legacy variable that is no flag, and
those of the tokens inside a special function. -/
def TokenKind.deprecations (file : Option String) (line : Nat) : TokenKind → List Deprecation
  | .var name true => if Flag.isFlag name then [] else [⟨line, name, file⟩]
  | .special pieces => Piece.deprecationsOf file pieces
  | _ => []

/-- The warnings that belong to the tokens in a part of a special function. -/
def Piece.deprecations (file : Option String) : Piece → List Deprecation
  | .raw _ => []
  | .interpolation tokens => Token.deprecationsOf file tokens

/-- The warnings that belong to some tokens. -/
def Token.deprecationsOf (file : Option String) : List Token → List Deprecation
  | [] => []
  | t :: ts => t.deprecations file ++ Token.deprecationsOf file ts

/-- The warnings that belong to the tokens in some parts of a special function. -/
def Piece.deprecationsOf (file : Option String) : List Piece → List Deprecation
  | [] => []
  | p :: ps => p.deprecations file ++ Piece.deprecationsOf file ps

end

section
variable {file : Option String} {t : Token}

theorem Token.deprecationsOf_append (ts us : List Token) :
    Token.deprecationsOf file (ts ++ us) =
      Token.deprecationsOf file ts ++ Token.deprecationsOf file us := by
  induction ts with
  | nil => rw [List.nil_append, deprecationsOf, List.nil_append]
  | cons t ts ih => rw [List.cons_append, deprecationsOf, deprecationsOf, ih, List.append_assoc]

theorem Token.deprecationsOf_singleton (t : Token) :
    Token.deprecationsOf file [t] = t.deprecations file := by
  rw [deprecationsOf, deprecationsOf, List.append_nil]

theorem Piece.deprecationsOf_append (ps qs : List Piece) :
    Piece.deprecationsOf file (ps ++ qs) =
      Piece.deprecationsOf file ps ++ Piece.deprecationsOf file qs := by
  induction ps with
  | nil => rw [List.nil_append, deprecationsOf, List.nil_append]
  | cons p ps ih => rw [List.cons_append, deprecationsOf, deprecationsOf, ih, List.append_assoc]

theorem Piece.deprecationsOf_raw (text : Text) : Piece.deprecationsOf file [.raw text] = [] := by
  rw [deprecationsOf, deprecationsOf, deprecations, List.append_nil]

theorem Piece.deprecationsOf_interpolation (tokens : List Token) :
    Piece.deprecationsOf file [.interpolation tokens] = Token.deprecationsOf file tokens := by
  rw [deprecationsOf, deprecationsOf, deprecations, List.append_nil]

/-- Text between the interpolations gives no warnings, however it is cut. -/
theorem Piece.deprecationsOf_join (ps : List Piece) :
    Piece.deprecationsOf file (Piece.join ps) = Piece.deprecationsOf file ps := by
  induction ps with
  | nil => rw [join]
  | cons p ps ih =>
    cases p with
    | interpolation tokens =>
      rw [join, deprecationsOf, deprecationsOf, ih]
      exact fun _ h => Piece.noConfusion h
    | raw text =>
      rw [deprecationsOf, ← ih, deprecations, List.nil_append, join]
      cases join ps with
      | nil => simp only [deprecationsOf, deprecations, List.nil_append]
      | cons q qs => cases q <;> simp only [deprecationsOf, deprecations, List.nil_append]

/-- Warnings belong to legacy variables and special functions only. -/
theorem Token.deprecations_eq_nil (hlegacy : ∀ name, t.kind ≠ .var name true)
    (hspecial : ∀ ps, t.kind ≠ .special ps) : t.deprecations file = [] := by
  obtain ⟨kind, location⟩ := t
  cases kind with
  | special ps => exact absurd rfl (hspecial ps)
  | var name legacy =>
    cases legacy with
    | true => exact absurd rfl (hlegacy name)
    | false => rfl
  | _ => rfl

end

/-- The warnings that are given with certain options. -/
def Options.reported (o : Options) (ds : List Deprecation) : List Deprecation :=
  if o.quiet then [] else ds

theorem Options.reported_append (o : Options) (ds es : List Deprecation) :
    o.reported (ds ++ es) = o.reported ds ++ o.reported es := by
  unfold reported
  split <;> rfl

theorem Options.reported_nil (o : Options) : o.reported [] = [] := by
  unfold reported
  split <;> rfl

namespace Lexer

variable {l m k : Lexer} {t : Token} {ts : List Token} {ahead : Lookahead} {c d : Cursor}

/-! ### Warnings of what is consumed -/

/-- Only a legacy variable makes the lexer warn by itself. -/
theorem warnings_note (h : ∀ ps, t.kind ≠ .special ps) (l : Lexer) :
    (l.note t).warnings = l.warnings ++ l.options.reported (t.deprecations l.options.filename) := by
  have hnone : (∀ name, t.kind ≠ .var name true) →
      l.warnings = l.warnings ++ l.options.reported (t.deprecations l.options.filename) := by
    intro hlegacy
    rw [Token.deprecations_eq_nil hlegacy h, Options.reported_nil, List.append_nil]
  obtain ⟨kind, location⟩ := t
  cases kind with
  | special ps => exact absurd rfl (h ps)
  | var name legacy =>
    cases legacy with
    | false => exact hnone nofun
    | true =>
      show ({ l with resume := none }.warn name location.line).warnings = _
      rw [Token.deprecations, TokenKind.deprecations, warn, Options.reported]
      cases l.options.quiet <;> cases Flag.isFlag name <;> simp
  | op o =>
    refine Eq.trans ?_ (hnone nofun)
    unfold note pop
    dsimp only
    split
    · split <;> rfl
    · split <;> rfl
    · next h => cases h
    · rfl
  | _ => exact hnone nofun

theorem warnings_note_special {ps : List Piece} (h : t.kind = .special ps) (l : Lexer) :
    (l.note t).warnings = l.warnings := by
  unfold note
  rw [h]

theorem warnings_consume (l : Lexer) (ahead : Lookahead) :
    (l.consume ahead).warnings = (l.note ahead.token).warnings ++ ahead.warnings := by
  unfold consume
  cases ahead.opens <;> rfl

/-! ### Texts that give no warnings -/

/-- A special function of a number of characters stands here, and the lexer of its parts does not
stop where it ends. -/
def Overruns (o : Options) (c : Cursor) (n : Nat) : Prop :=
  ∃ head body parts inner, Recognizer.specialHead c.rest = some head ∧
    (c.advance head).rest.balancedLength? = some body ∧ head + body = n ∧
    Rules.pieces interpolation (c.advance n) (ofCursor (c.advance head) o) = .ok parts inner ∧
    inner.cursor ≠ c.advance n

/-- A text without the mark of a legacy variable and without the text of a special function, of
those ahead of a place, that reads past its end. -/
structure Bare (c : Cursor) (o : Options) (t : Text) : Prop where
  mark : '!' ∉ t
  contained : ∀ d n, c.Before d → Overruns o d n → ¬ d.rest.take n <:+: t

theorem Bare.mono {o : Options} {u v : Text} (h : Bare c o v) (hsub : u <:+: v) : Bare c o u where
  mark hmem := h.mark (hsub.subset hmem)
  contained d n hd hover hpart := h.contained d n hd hover (hpart.trans hsub)

theorem bare_nil (c : Cursor) (o : Options) : Bare c o [] where
  mark := List.not_mem_nil
  contained d n _ hover hpart := by
    obtain ⟨head, body, _, _, hhead, _, rfl, -⟩ := hover
    have hpos := Recognizer.positive_specialHead _ _ hhead
    have hrest : d.rest = [] := by
      rcases List.take_eq_nil_iff.mp (List.infix_nil.mp hpart) with hzero | hnil
      · omega
      · exact hnil
    rw [hrest] at hhead
    cases hhead

/-- The lexer of the parts does not read past the end of a special function whose text gives no
warnings. -/
theorem Bare.before_of_pieces {o : Options} {s : Cursor} {head body : Nat} {parts : List Piece}
    {inner : Lexer} (hplace : c.Before s) (begins : Recognizer.specialHead s.rest = some head)
    (balanced : (s.advance head).rest.balancedLength? = some body)
    (read : Rules.pieces interpolation ((s.advance head).advance body)
      (ofCursor (s.advance head) o) = .ok parts inner)
    (h : Bare c o (((s.advance head).advance body).textSince s)) :
    inner.cursor.Before ((s.advance head).advance body) := by
  rw [Cursor.advance_advance] at read h ⊢
  rw [Cursor.textSince_advance] at h
  have hstop : inner.cursor = s.advance (head + body) := by
    refine Classical.byContradiction fun hne => ?_
    exact h.contained s (head + body) hplace ⟨head, body, parts, inner, begins, balanced,
      rfl, read, hne⟩
      (List.infix_refl _)
  exact hstop ▸ .refl _

/-- An interpolation that opens before a closing parenthesis has its brace before it too. -/
theorem brace_mem_of_before {d stop : Cursor} {rest : Text} (h : d.Before stop) (hne : d ≠ stop)
    (hparen : stop.past.head? = some ')') (hrest : d.rest = '#' :: '{' :: rest) :
    '{' ∈ stop.textSince d := by
  obtain ⟨w, hw, rfl⟩ := h.exists_text
  rw [Cursor.textSince_advance, hw, List.take_left]
  rw [hrest] at hw
  match w with
  | [] => exact absurd (Cursor.advance_zero d).symm hne
  | [x] =>
    have hhash : (d.advance 1).past.head? = some '#' := Cursor.past_advance_head? (t := []) hrest
    exact absurd (hparen.symm.trans hhash) (by decide)
  | x :: y :: w =>
    cases hw
    exact List.mem_cons_of_mem _ List.mem_cons_self

/-- A special function without a brace in its text has no interpolations, and the lexer of its parts
stops where it ends. -/
theorem not_overruns {o : Options} {n : Nat} (h : '{' ∉ c.rest.take n) : ¬ Overruns o c n := by
  rintro ⟨head, body, parts, inner, -, hbalanced, rfl, hread, hstop⟩
  refine hstop ?_
  obtain ⟨u, v, hrest, rfl⟩ := Text.closingParen?_eq_some hbalanced
  obtain ⟨start, hstart⟩ : ∃ start, c.advance head = start := ⟨_, rfl⟩
  obtain ⟨stop, hend⟩ : ∃ stop, c.advance (head + (u.length + 1)) = stop := ⟨_, rfl⟩
  have hplace : start.advance (u.length + 1) = stop := by
    rw [← hstart, ← hend, Cursor.advance_advance]
  have hparen : stop.past.head? = some ')' := hplace ▸ Cursor.past_advance_head? (hstart ▸ hrest)
  have hbody : start.Before stop := ⟨_, hplace.symm⟩
  rw [← Cursor.textSince_advance, hend] at h
  rw [hend, hstart] at hread
  rw [hend]
  have hstays :
      Ends (Rules.pieces interpolation stop) (ofCursor start o) (fun _ m => m.cursor = stop)
      (fun _ _ => True) := by
    rw [Rules.pieces_eq]
    refine Ends.unfold (fun found _ m => PartsTo start stop found m ∧ m.cursor.Before stop) ?_
      ⟨⟨rfl, ⟨[], .nil start⟩, nofun, fun h => absurd rfl h⟩, hbody⟩
    rintro found _ m ⟨hparts, hbefore⟩
    unfold Ends Rules.piece
    by_cases hoffset : stop.offset ≤ m.cursor.offset
    · rw [if_pos hoffset]
      exact hbefore.eq_of_offset_le hoffset
    rw [if_neg hoffset]
    have hne : m.cursor ≠ stop := fun hsame => hoffset (Nat.le_of_eq (by rw [hsame]))
    cases hraw : Rules.rawLength? m.cursor.rest with
    | some k =>
      obtain ⟨hsize, htext⟩ := hparts.text hbefore hne hparen hraw
      simp only
      rw [if_pos hsize]
      refine ⟨htext, htext.raw ?_⟩
      rw [Piece.endsRaw, List.getLast?_concat]
      rfl
    | none =>
      obtain ⟨rest, hopen⟩ := Rules.rawLength?_eq_none hraw
      have hbrace := brace_mem_of_before hbefore hne hparen hopen
      have hahead : c.Before m.cursor := (hstart ▸ Cursor.before_advance head c).trans hparts.before
      exact absurd ((hahead.infix_textSince hbefore (.refl _)).subset hbrace) h
  exact hstays.of_ok hread

/-- A text without the mark of a legacy variable and without interpolations gives no warnings. -/
theorem bare_of_not_mem {o : Options} {t : Text} (hmark : '!' ∉ t) (hbrace : '{' ∉ t) :
    Bare c o t where
  mark := hmark
  contained _ _ _ hover hpart := not_overruns (fun hmem => hbrace (hpart.subset hmem)) hover

/-! ### What a lexer has warned of -/

/-- What is known of the warnings of a lexer that has consumed some tokens: they are those that
belong to the tokens, and there are none if the text of the tokens gives none. -/
structure Told (c : Cursor) (o : Options) (l : Lexer) (ts : List Token) (m : Lexer) : Prop where
  warnings : m.warnings = l.warnings ++ o.reported (Token.deprecationsOf o.filename ts)
  bare : Bare c o (m.cursor.textSince l.cursor) → Token.deprecationsOf o.filename ts = []

theorem Told.append {o : Options} {us : List Token} (h : Told c o l ts k) (h' : Told c o k us m)
    (hlk : l.cursor.Before k.cursor) (hkm : k.cursor.Before m.cursor) :
    Told c o l (ts ++ us) m where
  warnings := by
    rw [h'.warnings, h.warnings, Token.deprecationsOf_append, Options.reported_append,
      List.append_assoc]
  bare hbare := by
    rw [Token.deprecationsOf_append,
      h.bare (hbare.mono ((Cursor.Before.refl _).infix_textSince hlk hkm)),
      h'.bare (hbare.mono (hlk.infix_textSince hkm (.refl _))), List.append_nil]

/-- What is known of the lexer of the parts of a special function from `body` on.  Their text is
known only up to where the function ends. -/
structure PartsTold (c : Cursor) (o : Options) (body stop : Cursor) (ps : List Piece) (m : Lexer) :
    Prop where
  fresh : m.lookahead = none
  options : m.options = o
  ahead : body.Before m.cursor
  warnings : m.warnings = o.reported (Piece.deprecationsOf o.filename ps)
  bare : m.cursor.Before stop → Bare c o (stop.textSince body) →
    Piece.deprecationsOf o.filename ps = []

section
variable {o : Options} {n : Nat}

/-- The tokens of an interpolation are consumed one by one, and the brace behind them changes no
more than the place. -/
theorem consumes_of_interpolation (hfresh : l.lookahead = none) (h : interpolation l = .ok ts m) :
    ∃ k, Consumes l ts k ∧ k.cursor.Before m.cursor ∧ m.lookahead = none ∧ m.options = k.options ∧
      m.warnings = k.warnings := by
  obtain ⟨n, _, hcollect, -, -, rfl⟩ := interpolation_eq_ok.mp h
  have hview : n.lookahead = none := fresh_of_collectUntil hcollect
  obtain ⟨k, _, hconsumes, -, -, hn⟩ := (ends_collectUntil_consumes hfresh _ _).of_ok hcollect
  have hbehind : k.cursor.Before n.cursor := by
    rw [hn]
    exact before_tokenStart k
  refine ⟨k, hconsumes, hbehind.advance 1, hview, ?_, ?_⟩
  · show n.options = k.options
    rw [hn]
    rfl
  · show n.warnings = k.warnings
    rw [hn]
    rfl

theorem Consumes.options (h : Consumes l ts m) (hfresh : l.lookahead = none) :
    m.options = l.options := by
  have hrun : Run interpolation l [] l := .start
  exact ((h.run hrun).sound hfresh).options

/-- How a token comes about that is consumed next. -/
theorem tokenAt_of_next (hfresh : l.lookahead = none) (h : next l = .ok (some t) m) :
    ∃ ahead, Rules.TokenAt interpolation l ahead m.cursor ∧ ahead.token = t ∧
    l.cursor.Before ahead.start ∧
      ∃ k : Lexer, k.options = l.options ∧ k.warnings = l.warnings ∧
        m.warnings = (k.note t).warnings ++ ahead.warnings := by
  obtain ⟨ahead, k, hread, rfl, rfl⟩ := exists_of_next hfresh h
  obtain ⟨⟨-, _, hk⟩, hstart, htoken⟩ := (Rules.ends_read interpolation l).of_ok hread
  refine ⟨ahead, ?_, rfl, hstart ▸ before_tokenStart l, k, ?_, ?_, warnings_consume k ahead⟩
  · rwa [cursor_consume]
  · rw [hk]
  · rw [hk]

/-- Text that is kept is one more part without warnings. -/
theorem PartsTold.text {body stop : Cursor} {ps : List Piece}
    (h : PartsTold c o body stop ps m) (k : Nat) :
    PartsTold c o body stop (ps ++ [.raw (m.cursor.rest.take k)])
      { m with cursor := m.cursor.advance k } := by
  have hsame : Piece.deprecationsOf o.filename (ps ++ [.raw (m.cursor.rest.take k)]) =
      Piece.deprecationsOf o.filename ps := by
    rw [Piece.deprecationsOf_append, Piece.deprecationsOf_raw, List.append_nil]
  refine ⟨h.fresh, h.options, h.ahead.advance k, hsame ▸ h.warnings, fun hm hbare => ?_⟩
  rw [hsame]
  exact h.bare ((Cursor.before_advance k m.cursor).trans hm) hbare

/-- An interpolation is one more part, with the warnings of its tokens. -/
theorem PartsTold.read {body stop : Cursor} {ps : List Piece} (h : PartsTold c o body stop ps m)
    {start k : Lexer} (hrun : interpolation start = .ok ts k)
    (hconsumes : ∀ j, Consumes start ts j → Told c o start ts j ∧ j.options = o)
    (hfresh : start.lookahead = none) (hstart : m.cursor.Before start.cursor)
    (hwarnings : start.warnings = m.warnings) :
    PartsTold c o body stop (ps ++ [.interpolation ts]) k := by
  obtain ⟨j, hj, hjk, hk, hkoptions, hkwarnings⟩ := consumes_of_interpolation hfresh hrun
  obtain ⟨htold, hjoptions⟩ := hconsumes j hj
  have hforward : start.cursor.Before j.cursor := hj.before hfresh
  have hplace := h.ahead.trans hstart
  refine ⟨hk, hkoptions.trans hjoptions, hplace.trans (hforward.trans hjk), ?_,
    fun hstop hbare => ?_⟩
  · rw [hkwarnings, htold.warnings, hwarnings, h.warnings, Piece.deprecationsOf_append,
      Piece.deprecationsOf_interpolation, Options.reported_append]
  · have hbehind := hjk.trans hstop
    rw [Piece.deprecationsOf_append, Piece.deprecationsOf_interpolation,
      h.bare (hstart.trans (hforward.trans hbehind)) hbare,
      htold.bare (hbare.mono (hplace.infix_textSince hforward hbehind)), List.append_nil]

/-- The parts of a special function, if it is known what the tokens of its interpolations come
to. -/
theorem ends_pieces_told {body : Cursor} (stop : Cursor) (hbody : c.Before body)
    (hleft : body.left ≤ n)
    (htold : ∀ l ts m, l.lookahead = none → c.Before l.cursor → l.options = o → l.cursor.left < n →
      Consumes l ts m → Told c o l ts m) :
    Ends (Rules.pieces interpolation stop) (ofCursor body o) (PartsTold c o body stop)
    (fun _ _ => True) := by
  have hnil : Piece.deprecationsOf o.filename [] = [] := by rw [Piece.deprecationsOf]
  have hnone : (ofCursor body o).warnings = o.reported (Piece.deprecationsOf o.filename []) := by
    rw [hnil, Options.reported_nil]
    rfl
  rw [Rules.pieces_eq]
  refine Ends.unfold (fun found _ m => PartsTold c o body stop found m) ?_
    ⟨rfl, rfl, .refl _, hnone, fun _ _ => hnil⟩
  intro found _ m hparts
  unfold Ends Rules.piece
  by_cases hstop : stop.offset ≤ m.cursor.offset
  · rw [if_pos hstop]
    simp only [List.append_nil]
    exact hparts
  rw [if_neg hstop]
  cases hraw : Rules.rawLength? m.cursor.rest with
  | some k =>
    simp only
    split <;> exact hparts.text k
  | none =>
    simp only
    have hlt : (m.cursor.advance 2).left < n := by
      obtain ⟨rest, hrest⟩ := Rules.rawLength?_eq_none hraw
      have hlength := m.cursor.left_eq
      rw [hrest, List.length_cons] at hlength
      have hle := hparts.ahead.left_le
      show m.cursor.left - 2 < n
      omega
    have hplace : c.Before (m.cursor.advance 2) := (hbody.trans hparts.ahead).advance 2
    have hconsumes : ∀ us j, Consumes { m with cursor := m.cursor.advance 2 } us j →
        Told c o { m with cursor := m.cursor.advance 2 } us j ∧ j.options = o := by
      intro us j hj
      exact ⟨htold _ _ _ hparts.fresh hplace hparts.options hlt hj,
        (hj.options hparts.fresh).trans hparts.options⟩
    cases hrun : interpolation { m with cursor := m.cursor.advance 2 } with
    | error e k => trivial
    | ok tokens k =>
      have hmore :=
        hparts.read hrun (hconsumes tokens) hparts.fresh (Cursor.before_advance 2 m.cursor) rfl
      simp only
      split <;> exact hmore

/-- A token that is found by its own text brings no warnings along, and a legacy variable begins
with its mark. -/
theorem told_of_lexeme {s : Cursor} {x : Lexeme} (hx : ∀ ps, x.kind ≠ .special ps)
    (hlegacy : ∀ name, x.kind = .var name true → '!' ∈ (s.advance x.length).textSince s)
    (hoptions : k.options = o)
    (hwarnings : m.warnings = (k.note (x.ahead s).token).warnings ++ (x.ahead s).warnings) :
    m.warnings = k.warnings ++ o.reported ((x.ahead s).token.deprecations o.filename) ∧
      (Bare c o ((s.advance x.length).textSince s) →
        (x.ahead s).token.deprecations o.filename = []) := by
  have hspecial : ∀ ps, (x.ahead s).token.kind ≠ .special ps := hx
  refine ⟨?_, fun hbare => ?_⟩
  · rw [hwarnings, warnings_note hspecial, hoptions]
    exact List.append_nil _
  · exact Token.deprecations_eq_nil (fun name hname => hbare.mark (hlegacy name hname)) hspecial

/-- The next token, if it is known what the tokens inside it come to. -/
theorem told_of_next (hfresh : l.lookahead = none) (hahead : c.Before l.cursor)
    (hoptions : l.options = o) (htold : ∀ k ts m, k.lookahead = none → c.Before k.cursor →
      k.options = o → k.cursor.left < l.cursor.left →
      Consumes k ts m → Told c o k ts m)
    (h : next l = .ok (some t) m) : Told c o l [t] m := by
  obtain ⟨ahead, htoken, rfl, hstart, k, hkoptions, hkwarnings, hwarnings⟩ :=
    tokenAt_of_next hfresh h
  rw [hoptions] at hkoptions
  -- Only the text of the token counts.
  suffices hown : m.warnings = k.warnings ++ o.reported (ahead.token.deprecations o.filename) ∧
      (Bare c o (m.cursor.textSince ahead.start) → ahead.token.deprecations o.filename = []) by
    rw [← Token.deprecationsOf_singleton, hkwarnings] at hown
    exact ⟨hown.1,
      fun hbare => hown.2 (hbare.mono (hstart.infix_textSince htoken.before (.refl _)))⟩
  generalize m.cursor = d at htoken
  cases htoken with
  | segment s q x pending found =>
    obtain ⟨⟨v, hkind⟩, -⟩ := Lexeme.segment?_eq_some found
    have hother : ∀ kind, (∀ v q, kind ≠ .string v q) → x.kind ≠ kind := by
      rintro kind hne rfl
      exact hne v q hkind
    exact told_of_lexeme (fun _ => hother _ nofun) (fun _ hx => absurd hx (hother _ nofun))
      hkoptions hwarnings
  | lexeme s x pending found =>
    have hfound := Lexeme.found_of_at? found
    refine told_of_lexeme hfound.kind_ne_special (fun name hx => ?_) hkoptions hwarnings
    have hhead := hfound.head?_of_legacy hx
    obtain ⟨rest, hrest⟩ := List.head?_eq_some_iff.mp hhead
    obtain ⟨j, hj⟩ : ∃ j, x.length = j + 1 := ⟨x.length - 1, by have := hfound.pos; omega⟩
    rw [Cursor.textSince_advance, hrest, hj, List.take_succ_cons]
    exact List.mem_cons_self
  | special s head body parts inner pending begins balanced read =>
    rw [hoptions] at read
    have hpos := Recognizer.positive_specialHead _ _ begins
    have hplace : c.Before s := hahead.trans hstart
    have hlt : (s.advance head).left < l.cursor.left := by
      have hleft := s.left_eq
      have hle : s.left ≤ l.cursor.left := hstart.left_le
      have hne : s.rest ≠ [] := fun hnil => by rw [hnil] at begins; cases begins
      have hrest := List.length_pos_iff.mpr hne
      show s.left - head < _
      omega
    have hparts :=
      (ends_pieces_told ((s.advance head).advance body) (hplace.advance head) (Nat.le_of_lt hlt)
      htold).of_ok read
    have hown : ∀ file, Token.deprecations file
        ⟨.special (Piece.join (.raw (s.rest.take head) :: parts)), s.location⟩ =
          Piece.deprecationsOf file parts := by
      intro file
      rw [Token.deprecations, TokenKind.deprecations, Piece.deprecationsOf_join,
        Piece.deprecationsOf, Piece.deprecations, List.nil_append]
    refine ⟨?_, fun hbare => ?_⟩
    · rw [hwarnings, warnings_note_special rfl, hparts.warnings, hown]
    · rw [hown]
      refine hparts.bare (hbare.before_of_pieces hplace begins balanced read) (hbare.mono ?_)
      exact (Cursor.before_advance head s).infix_textSince (Cursor.before_advance body _) (.refl _)

/-- **A lexer has warned of what belongs to the tokens it has consumed.**  Every warning is there
once, in the order of the tokens, those from inside special functions too.  There are none if the
text that was consumed has no mark of a legacy variable and no special function that reads past its
end. -/
theorem told_of_consumes (hfresh : l.lookahead = none) (hahead : c.Before l.cursor)
    (hoptions : l.options = o) (h : Consumes l ts m) : Told c o l ts m := by
  -- Inside a special function less is left to read than in front of it.
  induction hn : l.cursor.left using Nat.strongRecOn generalizing l ts m with
  | ind n ih =>
    replace hn : l.cursor.left ≤ n := Nat.le_of_eq hn
    induction h with
    | nil =>
      have hnil : Token.deprecationsOf o.filename [] = [] := by rw [Token.deprecationsOf]
      refine ⟨?_, fun _ => hnil⟩
      rw [hnil, Options.reported_nil, List.append_nil]
    | @cons l k m t ts first others ihothers =>
      have hone : Consumes l [t] k := .cons first (.nil k)
      have hk := fresh_of_next first
      have hforward : l.cursor.Before k.cursor := hone.before hfresh
      have hfirst := told_of_next hfresh hahead hoptions
        (fun j ts m hj hjahead hjoptions hlt hconsumes =>
          ih _ (Nat.lt_of_lt_of_le hlt hn) hj hjahead hjoptions hconsumes rfl) first
      have hrest := ihothers hk (hahead.trans hforward) ((hone.options hfresh).trans hoptions)
        (Nat.le_trans hforward.left_le hn)
      exact hfirst.append hrest hforward (others.before hk)

/-! ### Lexers inside productions -/

/-- A loop over tokens from a place: its warnings are those of its tokens, whose text ends at
`e`. -/
theorem told_of_collectUntil {β : Type} {go : β → Token → Option β} {b : β} (hd : c.Before d)
    (h : collectUntil go b (.ofCursor d o) = .ok ts m) :
    m.warnings = o.reported (Token.deprecationsOf o.filename ts) ∧
      ∃ e, d.Before e ∧ e.Before m.front ∧ (ts ≠ [] → m.previousEnd = e) ∧
        (Bare c o (e.textSince d) → Token.deprecationsOf o.filename ts = []) := by
  obtain ⟨n, _, hconsumes, -, -, hm⟩ :=
    (ends_collectUntil_consumes (l := .ofCursor d o) rfl go b).of_ok h
  have htold := told_of_consumes rfl hd rfl hconsumes
  have hfront : m.front = n.tokenStart := by
    rw [front_of_lookahead (fresh_of_collectUntil h), hm]
    rfl
  refine ⟨?_, n.cursor, hconsumes.before rfl, hfront ▸ before_tokenStart n,
    fun hts => ?_, htold.bare⟩
  · rw [hm]
    exact htold.warnings
  · rw [hm]
    exact hconsumes.previousEnd hts

/-- An interpolation from a place. -/
theorem told_of_interpolation (hd : c.Before d) (h : interpolation (.ofCursor d o) = .ok ts m) :
    m.warnings = o.reported (Token.deprecationsOf o.filename ts) ∧
      (Bare c o (m.front.textSince d) → Token.deprecationsOf o.filename ts = []) := by
  obtain ⟨n, hconsumes, hbehind, hview, -, hwarnings⟩ :=
    consumes_of_interpolation (l := .ofCursor d o) rfl h
  have htold := told_of_consumes rfl hd rfl hconsumes
  refine ⟨hwarnings.trans htold.warnings, fun hbare => htold.bare (hbare.mono ?_)⟩
  rw [front_of_lookahead hview]
  exact (Cursor.Before.refl d).infix_textSince (hconsumes.before rfl) hbehind

end

end Lexer
end Stylesheet
