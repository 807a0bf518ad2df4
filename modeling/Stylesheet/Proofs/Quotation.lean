import Stylesheet.Proofs.Interpolation

/-!
# Reading quoted text back

A text is quoted by a backslash before every character that means something in a string: the
backslash, the quote, and the `#` that an interpolation begins with.  A string may have
interpolations between such texts, and each of them holds a variable or a string in the other
quotes, which may have interpolations again (`Quotation`, `Insert`).  `consumes_quotation` says that
a lexer gives back, segment by segment, the texts that were quoted, with the tokens of the
interpolations between them, and that it then stands right behind the string with nothing open.
-/
namespace Stylesheet

/-- The other style of quotes. -/
def Quote.other : Quote → Quote
  | double => single
  | single => double

/-! ### Quoting -/

namespace Text

/-- A character as it is quoted. -/
def escapeChar (q : Quote) (c : Char) : Text :=
  if c = '\\' ∨ c = q.char ∨ c = '#' then ['\\', c] else [c]

/-- A text as it is quoted. -/
def escape (q : Quote) (t : Text) : Text :=
  t.flatMap (escapeChar q)

/-- A name of ASCII letters, digits, hyphens and underscores that does not start like a number. -/
def isAsciiName : Text → Bool
  | '-' :: t => starts t
  | t => starts t
where
  /-- Whether a text is such a name without a hyphen before it. -/
  starts : Text → Bool
    | c :: t => (c.isAlpha || c == '_') && t.all fun c => c.isAlphanum || c == '_' || c == '-'
    | [] => false

end Text

mutual

/-- What stands behind the opening quote of a string: a text, and the interpolation that cuts it
short with what goes on behind it. -/
inductive Quotation
  | last (s : Text)
  | cut (s : Text) (insert : Insert) (rest : Quotation)

/-- What stands in an interpolation of a string: a variable, or a string in the other quotes. -/
inductive Insert
  | variable (name : Text) (ascii : name.isAsciiName = true)
  | literal (body : Quotation)

end

mutual

/-- The source of a string in quotes, from behind the opening quote on. -/
def Quotation.source (q : Quote) : Quotation → Text
  | .last s => s.escape q ++ [q.char]
  | .cut s insert rest =>
    s.escape q ++ '#' :: '{' :: (insert.source q.other ++ '}' :: rest.source q)

/-- The source of what stands in an interpolation. A string in it has the quotes given. -/
def Insert.source (q : Quote) : Insert → Text
  | .variable name _ => '$' :: name
  | .literal body => q.char :: body.source q

end

mutual

/-- What the tokens of a string are. -/
def Quotation.kinds (q : Quote) : Quotation → List TokenKind
  | .last s => [.string s q]
  | .cut s insert rest =>
    .string s q :: .op .openInterpolation ::
      (insert.kinds q.other ++ .op .closeInterpolation :: rest.kinds q)

/-- What the tokens of an interpolation are. -/
def Insert.kinds (q : Quote) : Insert → List TokenKind
  | .variable name _ => [.var name false]
  | .literal body => body.kinds q

end

mutual

/-- The number of interpolations in a string, at all levels. -/
def Quotation.count : Quotation → Nat
  | .last _ => 0
  | .cut _ insert rest => insert.count + 1 + rest.count

/-- The number of interpolations in what stands in an interpolation. -/
def Insert.count : Insert → Nat
  | .variable _ _ => 0
  | .literal body => body.count

end

/-! ### One segment -/

namespace Text

theorem unescape_cons {c : Char} (h : c ≠ '\\') (t : Text) :
    unescape (c :: t) = c :: unescape t := by
  rw [unescape]
  intro _ _ hc
  exact absurd hc h

/-- What an escape of quoting stands for is no digit, so it is taken out. -/
theorem unescape_escape (q : Quote) (t : Text) : unescape (escape q t) = t := by
  induction t with
  | nil => rfl
  | cons c t ih =>
    rw [escape, List.flatMap_cons, ← escape]
    unfold escapeChar
    split
    · next hc =>
      have hdigit : isHexDigit c = false := by
        rcases hc with rfl | rfl | rfl
        · decide
        · cases q <;> decide
        · decide
      show unescape ('\\' :: c :: escape q t) = c :: t
      rw [unescape, hdigit, ih]
      rfl
    · next hc =>
      show unescape (c :: escape q t) = c :: t
      rw [unescape_cons (fun h => hc (.inl h)), ih]

end Text

namespace Text

theorem unescape_of_not_mem {t : Text} (h : '\\' ∉ t) : unescape t = t := by
  induction t with
  | nil => rfl
  | cons c t ih =>
    rw [List.mem_cons, not_or] at h
    rw [unescape_cons (Ne.symm h.1), ih h.2]

/-- A run of name characters is read up to what does not go on with it. -/
theorem nameLength_append {t rest : Text} (h : ∀ c ∈ t, isNameBody c = true)
    (hrest : rest.head?.any isNameChar = false) : nameLength (t ++ rest) = t.length := by
  induction t with
  | nil =>
    cases rest with
    | nil => rfl
    | cons c rest =>
      obtain ⟨hbody, hescape⟩ : isNameBody c = false ∧ c ≠ '\\' := by simpa [isNameChar] using hrest
      rw [List.nil_append, nameLength, hbody]
      · rfl
      · intro _ _ hc
        exact absurd hc hescape
  | cons c t ih =>
    have hc : isNameBody c = true := h c (List.mem_cons_self ..)
    rw [List.cons_append, nameLength, if_pos hc, ih fun d hd => h d (List.mem_cons_of_mem c hd)]
    · rfl
    · rintro _ _ rfl
      exact absurd hc (by decide)

theorem mem_of_starts {t : Text} (h : isAsciiName.starts t = true) :
    ∃ c u, t = c :: u ∧ isNameStart c = true ∧ c ≠ '\\' ∧ c ≠ '-' ∧
      ∀ d ∈ u, isNameBody d = true ∧ d ≠ '\\' := by
  unfold isAsciiName.starts at h
  split at h
  · next c u =>
    obtain ⟨hc, hu⟩ := Bool.and_eq_true_iff.mp h
    refine ⟨c, u, rfl, by rw [isNameStart, hc, Bool.true_or], ?_, ?_, fun d hd => ?_⟩
    · rintro rfl
      exact absurd hc (by decide)
    · rintro rfl
      exact absurd hc (by decide)
    · have hd := List.all_eq_true.mp hu d hd
      refine ⟨by rw [isNameBody, hd, Bool.true_or], ?_⟩
      rintro rfl
      exact absurd hd (by decide)
  · cases h

end Text

/-- An ASCII name is read up to what cannot go on with it. -/
theorem Recognizer.identifier_ascii {name rest : Text} (h : name.isAsciiName = true)
    (hrest : rest.head?.any isNameChar = false) :
    identifier (name ++ rest) = some name.length := by
  have hbare : ∀ {t : Text}, Text.isAsciiName.starts t = true →
      bareIdentifier (t ++ rest) = some t.length := by
    intro t ht
    obtain ⟨c, u, rfl, hstart, hescape, _, hu⟩ := Text.mem_of_starts ht
    rw [List.cons_append, bareIdentifier, if_pos hstart,
      Text.nameLength_append (fun d hd => (hu d hd).1) hrest]
    · rfl
    · rintro _ _ rfl
      exact absurd rfl hescape
  unfold Text.isAsciiName at h
  split at h
  · rw [List.cons_append, identifier, hbare h]
    rfl
  · obtain ⟨c, u, rfl, _, _, hhyphen, _⟩ := Text.mem_of_starts h
    rw [List.cons_append, identifier, ← List.cons_append, hbare h]
    intro _ hc
    exact absurd (List.cons.inj hc).1 hhyphen

theorem Text.unescape_ascii {name : Text} (h : name.isAsciiName = true) :
    unescape name = name := by
  apply unescape_of_not_mem
  have hstarts : ∀ {t : Text}, isAsciiName.starts t = true → '\\' ∉ t := by
    intro t ht hmem
    obtain ⟨c, u, rfl, _, hescape, _, hu⟩ := mem_of_starts ht
    rcases List.mem_cons.mp hmem with rfl | hmem
    · exact hescape rfl
    · exact (hu _ hmem).2 rfl
  unfold isAsciiName at h
  split at h
  · rw [List.mem_cons, not_or]
    exact ⟨by decide, hstarts h⟩
  · exact hstarts h

/-- Quoted text is passed over, up to what stands behind it. -/
theorem segmentEnd?_escape (q : Quote) (t rest : Text) :
    segmentEnd? q (t.escape q ++ rest) =
      (segmentEnd? q rest).map fun (n, e) => (n + (t.escape q).length, e) := by
  induction t with
  | nil =>
    show segmentEnd? q rest = _
    cases segmentEnd? q rest <;> rfl
  | cons c t ih =>
    rw [Text.escape, List.flatMap_cons, ← Text.escape]
    unfold Text.escapeChar
    split
    · show segmentEnd? q ('\\' :: c :: (Text.escape q t ++ rest)) = _
      rw [segmentEnd?, ih, Option.map_map]
      simp [Function.comp_def, Nat.add_assoc]
    · next hc =>
      simp only [not_or] at hc
      obtain ⟨hescape, hquote, hhash⟩ := hc
      show segmentEnd? q (c :: (Text.escape q t ++ rest)) = _
      rw [segmentEnd?, if_neg hquote, if_neg (fun h => hhash h.1), ih, Option.map_map]
      · simp [Function.comp_def, Nat.add_assoc]
      · intro _ _ h
        exact absurd h hescape

namespace Lexeme

theorem segment?_closed (q : Quote) (s rest : Text) :
    segment? q (s.escape q ++ q.char :: rest) =
      some ⟨.string s q, (s.escape q).length + 1, none⟩ := by
  have hend : segmentEnd? q (q.char :: rest) = some (0, .closed) := by
    cases q <;> simp [segmentEnd?, Quote.char]
  rw [segment?, segmentEnd?_escape, hend]
  simp [Text.unescape_escape]

/-- An interpolation cuts a string short, unless it begins with the closing quote. -/
theorem segment?_cut (q : Quote) (s : Text) {rest : Text} (h : rest.head? ≠ some q.char) :
    segment? q (s.escape q ++ '#' :: '{' :: rest) =
      some ⟨.string s q, (s.escape q).length, some q⟩ := by
  have hend : segmentEnd? q ('#' :: '{' :: rest) = some (0, .interpolated) := by
    rw [segmentEnd?, if_neg (by cases q <;> decide), if_pos ⟨rfl, rfl, h⟩]
    intro _ _ hc
    exact absurd hc (by decide)
  rw [segment?, segmentEnd?_escape, hend]
  simp [Text.unescape_escape]

theorem at?_string (inside : Bool) (q : Quote) (t : Text) {x : Lexeme} (h : segment? q t = some x) :
    at? inside (q.char :: t) = some { x with length := x.length + 1 } := by
  have hstring : string? q (q.char :: t) = some { x with length := x.length + 1 } := by
    rw [string?, if_pos rfl, h]
    rfl
  have hleading : leading? (q.char :: t) = some { x with length := x.length + 1 } := by
    cases q with
    | double =>
      show (none <|> string? .double (Quote.double.char :: t) <|> _) = _
      rw [hstring]
      rfl
    | single =>
      show (none <|> none <|> string? .single (Quote.single.char :: t) <|> _) = _
      rw [hstring]
      rfl
  rw [at?, hleading, Option.some_or]

theorem at?_variable (inside : Bool) {name rest : Text} (h : name.isAsciiName = true)
    (hrest : rest.head?.any isNameChar = false) :
    at? inside ('$' :: (name ++ rest)) =
      some { kind := .var name false, length := name.length + 1 } := by
  have href : reference? ('$' :: (name ++ rest)) =
      some { kind := .var name false, length := name.length + 1 } := by
    rw [reference?, if_pos (.inl rfl), Recognizer.identifier_ascii h hrest]
    simp [Text.unescape_ascii h]
  rw [at?, leading?, href]
  rfl

end Lexeme

theorem Quotation.kinds_ne_nil (b : Quotation) (q : Quote) : b.kinds q ≠ [] := by
  cases b with
  | last => exact List.cons_ne_nil _ _
  | cut => exact List.cons_ne_nil _ _

theorem Quotation.length_source_cut (q : Quote) (s : Text) (e : Insert) (b : Quotation) :
    (Quotation.source q (.cut s e b)).length =
      (s.escape q).length + 2 + (e.source q.other).length + 1 + (b.source q).length := by
  simp only [Quotation.source, List.length_append, List.length_cons]
  omega

/-- An interpolation does not begin with the quote of the string around it. -/
theorem Insert.head?_source (e : Insert) (q : Quote) (t : Text) :
    (e.source q.other ++ t).head? ≠ some q.char := by
  cases e with
  | «variable» =>
    show some '$' ≠ some q.char
    cases q <;> decide
  | literal =>
    show some q.other.char ≠ some q.char
    cases q <;> decide

/-! ### Reading a string -/

namespace Lexer

/-- Successive calls of `next` give these tokens, and lead to another lexer. -/
inductive Consumes : Lexer → List Token → Lexer → Prop
  | nil (l : Lexer) : Consumes l [] l
  | cons {l m n : Lexer} {t : Token} {ts : List Token} (first : l.next = .ok (some t) m)
      (others : Consumes m ts n) : Consumes l (t :: ts) n

theorem Consumes.append {l m n : Lexer} {ts us : List Token} (h : Consumes l ts m)
    (h' : Consumes m us n) : Consumes l (ts ++ us) n := by
  induction h with
  | nil => exact h'
  | cons first _ ih => exact .cons first (ih h')

/-- Behind a token the lexer stands where the token ends. -/
theorem Consumes.previousEnd {l m : Lexer} {ts : List Token} (h : Consumes l ts m) (hts : ts ≠ []) :
    m.previousEnd = m.cursor := by
  induction h with
  | nil => exact absurd rfl hts
  | @cons l m n t ts first others ih =>
    cases ts with
    | cons => exact ih (List.cons_ne_nil _ _)
    | nil =>
      cases others
      have hrun : Run interpolation l [] l := .start
      obtain ⟨k, ahead, _, _, _, _, rfl⟩ := (ends_next hrun).of_ok first
      rw [previousEnd_consume, cursor_consume]

/-- What of a lexer matters to the strings it reads: where it stands, what is open there, how many
interpolations were opened and closed, whether a segment was cut short right before, and the string
that goes on here. -/
structure Stands (l : Lexer) (c : Cursor) (interpolations : List (Option Quote))
    (pushes pops : Nat) (cut : Bool) (pending : Option Quote) : Prop where
  cursor : l.cursor = c
  lookahead : l.lookahead = none
  interpolations : l.interpolations = interpolations
  pushes : l.pushes = pushes
  pops : l.pops = pops
  openSegment : l.openSegment = cut
  pending : l.pending = pending

namespace Stands

theorem ofCursor (c : Cursor) (options : Options) :
    Stands (.ofCursor c options) c [] 0 0 false none :=
  ⟨rfl, rfl, rfl, rfl, rfl, rfl, rfl⟩

variable {l : Lexer} {c : Cursor} {around : List (Option Quote)} {pushes pops : Nat} {cut : Bool}
  {pending : Option Quote}

/-- A token that is read, with the lexer before it is consumed. -/
theorem next (h : Stands l c around pushes pops cut pending) {y : Lexeme} {start e : Cursor}
    {wording : Option String} (hread : Rules.read interpolation l =
      .ok (some (y.ahead start)) { l with cursor := e, expected := wording }) :
    ∃ n, l.next = .ok (some (y.ahead start).token) (n.consume (y.ahead start)) ∧
      Stands n e around pushes pops cut pending :=
  ⟨_, Rules.next_of_read h.lookahead hread, rfl, h.lookahead, h.interpolations, h.pushes, h.pops,
    h.openSegment, h.pending⟩

/-- A lexeme is read right where the lexer stands, if neither white space nor a comment is there. -/
theorem read (h : Stands l c around pushes pops cut none)
    (htrivia : Recognizer.trivia c.rest = none) {y : Lexeme}
    (hfound : Lexeme.at? (0 < around.length) c.rest = some y) :
    Rules.read interpolation l =
      .ok (some (y.ahead c)) { l with cursor := c.advance y.length, expected := none } := by
  have hskip : l.skipTrivia = l := skipTrivia_eq (by rw [h.cursor, htrivia])
  have hend : c.atEnd = false := by
    refine Bool.eq_false_iff.mpr fun hend => ?_
    rw [List.isEmpty_iff.mp hend, Lexeme.at?_nil] at hfound
    cases hfound
  have hread := Rules.read_lexeme interpolation h.pending (x := y) (by rw [hskip, h.cursor, hend])
    (by rw [hskip, depth, h.interpolations, h.cursor, hfound])
  rwa [hskip, h.cursor] at hread

theorem read_lexeme (h : Stands l c around pushes pops cut none) {x : Char} {t : Text}
    (hrest : c.rest = x :: t) (hblank : isBlank x = false) (hslash : x ≠ '/') {y : Lexeme}
    (hfound : Lexeme.at? (0 < around.length) (x :: t) = some y) :
    Rules.read interpolation l =
      .ok (some (y.ahead c)) { l with cursor := c.advance y.length, expected := none } :=
  h.read (by rw [hrest, Recognizer.trivia_eq_none hblank hslash]) (hrest ▸ hfound)

variable {ahead : Lookahead}

/-- A token that neither opens nor closes anything. -/
theorem consume (h : Stands l c around pushes pops cut pending) (hopens : ahead.opens = none)
    (hopen : ahead.token.kind ≠ .op .openInterpolation)
    (hclose : ahead.token.kind ≠ .op .closeInterpolation)
    (hlegacy : ∀ name, ahead.token.kind ≠ .var name true) :
    Stands (l.consume ahead) c around pushes pops cut none := by
  have hpending := pending_consume l ahead hclose
  rw [consume_eq hopens, note_eq hopen hclose hlegacy] at hpending ⊢
  exact ⟨h.cursor, rfl, h.interpolations, h.pushes, h.pops, h.openSegment, hpending⟩

/-- A segment of a string that an interpolation cuts short. -/
theorem consume_cut (h : Stands l c around pushes pops cut pending) {q r : Quote} {v : Text}
    (hopens : ahead.opens = some r) (hkind : ahead.token.kind = .string v q) :
    Stands (l.consume ahead) c (some r :: around) (pushes + 1) pops true none := by
  have hnote : l.note ahead.token = { l with resume := none } :=
    note_eq (by rw [hkind]; exact nofun) (by rw [hkind]; exact nofun) fun _ => by
      rw [hkind]; exact nofun
  have hpending := pending_consume l ahead (by rw [hkind]; exact nofun)
  rw [Lexer.consume_cut hopens, hnote] at hpending ⊢
  exact ⟨h.cursor, rfl, congrArg _ h.interpolations, congrArg (· + 1) h.pushes, h.pops,
    rfl, hpending⟩

/-- The opening of an interpolation behind the segment it cuts short. -/
theorem opens (h : Stands l c around pushes pops true none) {t : Text}
    (hrest : c.rest = '#' :: '{' :: t) :
    ∃ tok m, l.next = .ok (some tok) m ∧ tok.kind = .op .openInterpolation ∧
      Stands m (c.advance 2) around pushes pops false none := by
  obtain ⟨n, hnext, hn⟩ :=
    h.next (h.read_lexeme hrest (by decide) (by decide) (Lexeme.at?_openInterpolation _ t))
  refine ⟨_, _, hnext, rfl, ?_⟩
  rw [consume_eq rfl, note_open rfl, if_pos hn.openSegment]
  exact ⟨hn.cursor, rfl, hn.interpolations, hn.pushes, hn.pops, rfl, rfl⟩

/-- The brace that closes an interpolation.  The string around it goes on behind it. -/
theorem closes {r : Option Quote} (h : Stands l c (r :: around) pushes pops cut none) {t : Text}
    (hrest : c.rest = '}' :: t) :
    ∃ tok m, l.next = .ok (some tok) m ∧ tok.kind = .op .closeInterpolation ∧
      Stands m (c.advance 1) around pushes (pops + 1) cut r := by
  obtain ⟨n, hnext, hn⟩ :=
    h.next (h.read_lexeme hrest (by decide) (by decide) (Lexeme.at?_closeInterpolation t))
  refine ⟨_, _, hnext, rfl, ?_⟩
  rw [consume_eq rfl, note_close rfl hn.interpolations]
  exact ⟨hn.cursor, rfl, rfl, hn.pushes, congrArg (· + 1) hn.pops, hn.openSegment, rfl⟩

end Stands

/-- A lexer that reads the next segment of a string in these quotes, which starts at a place. -/
def Begins (q : Quote) (l : Lexer) (c : Cursor) : Prop :=
  ∀ x, Lexeme.segment? q c.rest = some x →
    ∃ (y : Lexeme) (start : Cursor) (wording : Option String),
    Rules.read interpolation l =
      .ok (some (y.ahead start)) { l with cursor := c.advance x.length, expected := wording } ∧
    y.kind = x.kind ∧ y.opens = x.opens

section
variable {l : Lexer} {c d : Cursor} {around : List (Option Quote)} {pushes pops : Nat} {cut : Bool}
  {q : Quote} {pending : Option Quote}

theorem begins_opened (h : Stands l c around pushes pops cut none) {t : Text}
    (hrest : c.rest = q.char :: t) : Begins q l (c.advance 1) := by
  intro x hx
  have hbehind : (c.advance 1).rest = t := by rw [Cursor.rest_advance, hrest]; rfl
  rw [hbehind] at hx
  have hread := h.read_lexeme hrest (by cases q <;> decide) (by cases q <;> decide)
    (Lexeme.at?_string _ q t hx)
  have hplace : (c.advance 1).advance x.length = c.advance (x.length + 1) := by
    rw [Cursor.advance_advance, Nat.add_comm]
  refine ⟨{ x with length := x.length + 1 }, c, none, ?_, rfl, rfl⟩
  rw [hplace]
  exact hread

theorem begins_resumed (h : Stands l c around pushes pops cut (some q)) : Begins q l c := by
  intro x hx
  have hread := Rules.read_segment interpolation h.pending (x := x)
    (by rw [h.cursor]; exact hx)
  rw [h.cursor] at hread
  exact ⟨x, c, _, hread, rfl, rfl⟩

/-- The last segment of a string. -/
theorem consumes_last (h : Stands l d around pushes pops cut pending) (hbegins : Begins q l c)
    {s t : Text} (hrest : c.rest = s.escape q ++ q.char :: t) :
    ∃ tok m, l.next = .ok (some tok) m ∧ tok.kind = .string s q ∧
      Stands m (c.advance ((s.escape q).length + 1)) around pushes pops cut none := by
  obtain ⟨y, start, _, hread, hkind, hopens⟩ :=
    hbegins _ (by rw [hrest]; exact Lexeme.segment?_closed q s t)
  obtain ⟨n, hnext, hn⟩ := h.next hread
  have hstring : (y.ahead start).token.kind = .string s q := hkind
  refine ⟨_, _, hnext, hstring, hn.consume hopens ?_ ?_ fun name => ?_⟩
  · rw [hstring]
    rintro ⟨⟩
  · rw [hstring]
    rintro ⟨⟩
  · rw [hstring]
    rintro ⟨⟩

/-- A segment that is cut short, and the opening of the interpolation behind it. -/
theorem consumes_cut (h : Stands l d around pushes pops cut pending) (hbegins : Begins q l c)
    {s t : Text} (hrest : c.rest = s.escape q ++ '#' :: '{' :: t) (hhead : t.head? ≠ some q.char) :
    ∃ ts m, Consumes l ts m ∧ ts.map (·.kind) = [.string s q, .op .openInterpolation] ∧
      Stands m (c.advance ((s.escape q).length + 2)) (some q :: around) (pushes + 1) pops false
        none := by
  obtain ⟨y, start, _, hread, hkind, hopens⟩ :=
    hbegins _ (by rw [hrest]; exact Lexeme.segment?_cut q s hhead)
  obtain ⟨n, hnext, hn⟩ := h.next hread
  have hstring : (y.ahead start).token.kind = .string s q := hkind
  have hm : Stands (n.consume (y.ahead start)) _ _ _ _ _ _ := hn.consume_cut hopens hstring
  obtain ⟨t', m', hnext', hkind', hm'⟩ := hm.opens (Cursor.rest_advance_append hrest)
  rw [Cursor.advance_advance] at hm'
  refine ⟨_, m', .cons hnext (.cons hnext' (.nil _)), ?_, hm'⟩
  rw [List.map_cons, List.map_cons, List.map_nil, hstring, hkind']

end

mutual

/-- What stands behind an opening quote is read back, in a lexer that reads its first segment. -/
theorem consumes_body (b : Quotation) {q : Quote} {l : Lexer} {c d : Cursor}
    {around : List (Option Quote)} {pushes pops : Nat} {pending : Option Quote} {after : Text}
    (h : Stands l d around pushes pops false pending) (hbegins : Begins q l c)
    (hrest : c.rest = b.source q ++ after) :
    ∃ ts m, Consumes l ts m ∧ ts.map (·.kind) = b.kinds q ∧
      Stands m (c.advance (b.source q).length) around (pushes + b.count)
        (pops + b.count) false none := by
  match b with
  | .last s =>
    rw [Quotation.source, List.append_assoc] at hrest
    obtain ⟨t, m, hnext, hkind, hm⟩ := consumes_last h hbegins hrest
    refine ⟨[t], m, .cons hnext (.nil _), ?_, ?_⟩
    · rw [List.map_singleton, hkind]
      rfl
    · rw [Quotation.source, List.length_append]
      exact hm
  | .cut s insert rest =>
    -- The segment, the opening, the insert, the brace and what goes on behind it, one after the
    -- other.
    obtain ⟨inner, hinner⟩ : ∃ inner, inner =
        insert.source q.other ++ '}' :: (rest.source q ++ after) := ⟨_, rfl⟩
    have hsource : c.rest = s.escape q ++ '#' :: '{' :: inner := by
      rw [hrest, hinner, Quotation.source]
      simp
    have hhead : inner.head? ≠ some q.char := by
      rw [hinner]
      exact insert.head?_source q _
    obtain ⟨ts₁, m₁, hts₁, hkinds₁, hm₁⟩ := consumes_cut h hbegins hsource hhead
    have hrest₁ : (c.advance ((s.escape q).length + 2)).rest = inner := by
      rw [← Cursor.advance_advance, Cursor.rest_advance, Cursor.rest_advance_append hsource]
      rfl
    obtain ⟨ts₂, m₂, hts₂, hkinds₂, hm₂⟩ := consumes_insert insert hm₁ (hrest₁.trans hinner)
    have hrest₂ := Cursor.rest_advance_append (hrest₁.trans hinner)
    obtain ⟨t, m₃, hnext₃, hkind₃, hm₃⟩ := hm₂.closes hrest₂
    obtain ⟨ts₄, m₄, hts₄, hkinds₄, hm₄⟩ := consumes_body rest hm₃ (begins_resumed hm₃)
      (by rw [Cursor.rest_advance, hrest₂]; rfl)
    refine ⟨_, m₄, hts₁.append (hts₂.append (.cons hnext₃ hts₄)), ?_, ?_⟩
    · rw [List.map_append, List.map_append, List.map_cons, hkinds₁, hkinds₂, hkind₃, hkinds₄]
      simp [Quotation.kinds]
    · have hpushes : pushes + (Quotation.cut s insert rest).count =
          pushes + 1 + insert.count + rest.count := by
        rw [Quotation.count]
        omega
      have hpops : pops + (Quotation.cut s insert rest).count =
          pops + insert.count + 1 + rest.count := by
        rw [Quotation.count]
        omega
      simp only [Cursor.advance_advance] at hm₄
      rw [Quotation.length_source_cut, hpushes, hpops]
      exact hm₄

/-- What stands in an interpolation is read back. -/
theorem consumes_insert (e : Insert) {q : Quote} {l : Lexer} {c : Cursor}
    {around : List (Option Quote)} {pushes pops : Nat} {after : Text}
    (h : Stands l c around pushes pops false none) (hrest : c.rest = e.source q ++ '}' :: after) :
    ∃ ts m, Consumes l ts m ∧ ts.map (·.kind) = e.kinds q ∧
      Stands m (c.advance (e.source q).length) around (pushes + e.count)
        (pops + e.count) false none := by
  match e with
  | .variable name hname =>
    have hread := h.read_lexeme hrest (by decide) (by decide)
      (Lexeme.at?_variable _ hname rfl)
    obtain ⟨n, hnext, hn⟩ := h.next hread
    exact ⟨_, _, .cons hnext (.nil _), rfl, hn.consume rfl nofun nofun nofun⟩
  | .literal body =>
    have hbehind : (c.advance 1).rest = body.source q ++ '}' :: after := by
      rw [Cursor.rest_advance, hrest]
      rfl
    obtain ⟨ts, m, hts, hkinds, hm⟩ := consumes_body body h (begins_opened h hrest) hbehind
    refine ⟨ts, m, hts, hkinds, ?_⟩
    rw [Cursor.advance_advance, Nat.add_comm] at hm
    exact hm

end

/-- **Reading undoes quoting, at any nesting of interpolations.**  A lexer that starts at a string
in either quotes, whatever stands before and behind it, gives back the texts that were quoted with
the tokens of the interpolations between them.  It then stands right behind the string, every
interpolation of the string was opened and closed once, and none is open. -/
theorem consumes_quotation (b : Quotation) (q : Quote) (before after : Text) (line column : Nat)
    (options : Options) :
    ∃ ts m, Consumes
        (ofCursor ((Cursor.start (before ++ (q.char :: b.source q ++ after)) line column).advance
          before.length) options) ts m ∧
      ts.map (·.kind) = b.kinds q ∧
      m.previousEnd =
        ((Cursor.start (before ++ (q.char :: b.source q ++ after)) line column).advance
          before.length).advance (q.char :: b.source q).length ∧
      m.cursor = m.previousEnd ∧ m.pushes = b.count ∧ m.pops = b.count ∧ m.depth = 0 := by
  obtain ⟨c, hc⟩ : ∃ c, c =
      (Cursor.start (before ++ (q.char :: b.source q ++ after)) line column).advance
        before.length :=
    ⟨_, rfl⟩
  have hrest : c.rest = q.char :: (b.source q ++ after) := by
    rw [hc]
    exact Cursor.rest_advance_append rfl
  have hstart := Stands.ofCursor c options
  have hbehind : (c.advance 1).rest = b.source q ++ after := by
    rw [Cursor.rest_advance, hrest]
    rfl
  obtain ⟨ts, m, hts, hkinds, hm⟩ := consumes_body b hstart (begins_opened hstart hrest) hbehind
  have hne : ts ≠ [] := by
    rintro rfl
    exact b.kinds_ne_nil q hkinds.symm
  have hend := hts.previousEnd hne
  rw [← hc]
  refine ⟨ts, m, hts, hkinds, ?_, hend.symm, ?_, ?_, ?_⟩
  · rw [hend, hm.cursor, Cursor.advance_advance, List.length_cons, Nat.add_comm]
  · rw [hm.pushes, Nat.zero_add]
  · rw [hm.pops, Nat.zero_add]
  · rw [depth, hm.interpolations]
    rfl

end Lexer
end Stylesheet
