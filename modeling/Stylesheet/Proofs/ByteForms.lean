import Stylesheet.Proofs.ByteCursor
import Stylesheet.Proofs.Cutoff
import Stylesheet.Text.Balanced

/-!
# Lengths in bytes

Most tokens take what a pattern matches, and a match ends between two characters.  The others are
measured by loops of their own, which count bytes and slice the text with what they have counted:
strings (`Text.stringEnd?`), spans up to the closing parenthesis (`Text.closingByte?`) and colors
(`Color.ofHexBytes?`).  Each of these loops may fail to have an answer, where a slice does not exist
or a count of what is open falls below zero.

They always have one, and it is that of the forms counted in characters.  The loops keep the number
of bytes of the text they have passed, so the statements are about a text in two parts, of which the
first one is passed.
-/
namespace Stylesheet

namespace Text

/-! ### Strings -/

/-- The byte of a text at which a segment of a string ends, where `byte` bytes of it are passed and
`t` is left. -/
def stringEnd? (q : Quote) (text : Text) (byte : Nat) : Text → Option (Option (Nat × SegmentEnd))
  | [] => some none
  | '\\' :: c :: t => stringEnd? q text (byte + 1 + c.utf8Size) t
  | c :: t =>
    if c = q.char then some (some (byte, .closed))
    else if c = '#' then do
      let next ← text.dropBytes? (byte + 1)
      if next.head? = some '{' then do
        let behind ← text.dropBytes? (byte + 2)
        if behind.head? = some q.char then stringEnd? q text (byte + c.utf8Size) t
        else some (some (byte, .interpolated))
      else stringEnd? q text (byte + c.utf8Size) t
    else stringEnd? q text (byte + c.utf8Size) t

/-! ### Parentheses -/

/-- The braces of an interpolation, if one is open. -/
def openBraces (braces : Nat) : Option Nat :=
  if braces = 0 then none else some braces

/-- The braces that are open behind a character inside an interpolation, if the interpolation is. -/
def bracesBehind? (braces : Nat) (c : Char) : Option (Option Nat) :=
  if c = '{' then some (some (braces + 1))
  else if c = '}' then (minus? braces 1).map openBraces
  else some (some braces)

/-- The byte behind the closing parenthesis, where `byte` bytes are passed, `depth` parentheses are
open and, inside an interpolation, some braces. -/
def closingByte? (depth : Nat) (braces : Option Nat) (byte : Nat) : Text → Option (Option Nat)
  | [] => some none
  | c :: t =>
    match braces with
    | some braces => do
      let braces ← bracesBehind? braces c
      closingByte? depth braces (byte + c.utf8Size) t
    | none =>
      match c, t with
      | '\\', d :: t => closingByte? depth none (byte + 1 + d.utf8Size) t
      | '#', '{' :: t => closingByte? depth (some 1) (byte + 2) t
      | '(', t => closingByte? (depth + 1) none (byte + 1) t
      | ')', t => do
        let depth ← minus? depth 1
        if depth = 0 then some (some (byte + 1)) else closingByte? depth none (byte + 1) t
      | c, t => closingByte? depth none (byte + c.utf8Size) t

/-- The number of bytes up to and including the parenthesis that closes one already open. -/
def balancedBytes? (t : Text) : Option (Option Nat) :=
  closingByte? 1 none 0 t

/-! ### The same in characters -/

/-- The loop goes on behind a character that is neither a backslash, a quote nor the sign of an
interpolation. -/
theorem stringEnd?_cons {q : Quote} {c : Char} {text t : Text} (byte : Nat)
    (hescape : ∀ d u, c = '\\' → t = d :: u → False) (hc : c ≠ q.char) (hsign : c ≠ '#') :
    stringEnd? q text byte (c :: t) = stringEnd? q text (byte + c.utf8Size) t := by
  rw [stringEnd?, if_neg hc, if_neg hsign]
  exact hescape

/-- At the sign of an interpolation the two slices behind it show what follows. -/
theorem stringEnd?_sign (q : Quote) (before t : Text) :
    stringEnd? q (before ++ '#' :: t) before.byteLength ('#' :: t) =
      if t.head? = some '{' ∧ t.tail.head? ≠ some q.char then
        some (some (before.byteLength, .interpolated))
      else stringEnd? q (before ++ '#' :: t) (before.byteLength + 1) t := by
  have hnext : dropBytes? (before ++ '#' :: t) (before.byteLength + 1) = some t := by
    have hdrop := dropBytes?_append (before ++ ['#']) t
    rwa [byteLength_append, List.append_assoc] at hdrop
  have hquote : '#' ≠ q.char := by cases q <;> decide
  rw [stringEnd?, if_neg hquote, if_pos rfl, hnext, Option.bind_eq_bind, Option.bind_some]
  · by_cases hbrace : t.head? = some '{'
    · obtain ⟨u, rfl⟩ := List.head?_eq_some_iff.mp hbrace
      have hbehind : dropBytes? (before ++ '#' :: '{' :: u) (before.byteLength + 2) = some u := by
        have hdrop := dropBytes?_append (before ++ ['#', '{']) u
        rwa [byteLength_append, List.append_assoc] at hdrop
      rw [if_pos hbrace, hbehind, Option.bind_some]
      by_cases hclose : u.head? = some q.char
      · rw [if_pos hclose, if_neg fun h => h.2 hclose]
        rfl
      · rw [if_neg hclose, if_pos ⟨hbrace, hclose⟩]
    · rw [if_neg hbrace, if_neg fun h => hbrace h.1]
      rfl
  · exact fun _ _ h => absurd h (by decide)

/-- What is found behind some more characters is as many bytes further on. -/
theorem map_passed (before passed t : Text) (r : Option (Nat × SegmentEnd)) :
    (r.map fun (n, e) => ((before ++ passed).byteLength + byteLength (t.take n), e)) =
      (r.map fun (n, e) => (n + passed.length, e)).map fun (n, e) =>
        (before.byteLength + byteLength ((passed ++ t).take n), e) := by
  cases r with
  | none => rfl
  | some r =>
    obtain ⟨n, e⟩ := r
    simp only [Option.map_some, byteLength_append, Nat.add_comm n, List.take_length_add_append,
      Nat.add_assoc]

/-- **A string ends at the byte behind the characters of its segment**, and no slice on the way is
missing. -/
theorem stringEnd?_eq (q : Quote) (before t : Text) :
    stringEnd? q (before ++ t) before.byteLength t =
      some ((segmentEnd? q t).map fun (n, e) =>
        (before.byteLength + byteLength (t.take n), e)) := by
  induction t using segmentEnd?.induct q generalizing before with
  | case1 => rfl
  | case2 c t ih =>
    have hrest := ih (before ++ ['\\', c])
    have hbyte : (before ++ ['\\', c]).byteLength = before.byteLength + 1 + c.utf8Size := by
      rw [byteLength_append, Nat.add_assoc]
      rfl
    rw [map_passed, hbyte, List.append_assoc] at hrest
    rw [stringEnd?, segmentEnd?]
    exact hrest
  | case3 t hescape =>
    rw [stringEnd?, segmentEnd?, if_pos rfl, if_pos rfl]
    · rfl
    · exact hescape
    · exact hescape
  | case4 c t hescape hc hopening =>
    obtain ⟨rfl, hopen⟩ := hopening
    rw [stringEnd?_sign, if_pos hopen, segmentEnd?, if_neg hc, if_pos ⟨rfl, hopen⟩]
    · rfl
    · exact hescape
  | case5 c t hescape hc hopening ih =>
    have hrest := ih (before ++ [c])
    have hbyte : (before ++ [c]).byteLength = before.byteLength + c.utf8Size := by
      rw [byteLength_append]
      rfl
    rw [map_passed, hbyte, List.append_assoc] at hrest
    rw [segmentEnd?, if_neg hc, if_neg hopening]
    · by_cases hsign : c = '#'
      · subst hsign
        rw [stringEnd?_sign, if_neg fun h => hopening ⟨rfl, h⟩]
        exact hrest
      · rw [stringEnd?_cons _ hescape hc hsign]
        exact hrest
    · exact hescape

theorem map_passed_length (byte : Nat) (passed t : Text) (r : Option Nat) :
    (r.map fun n => byte + passed.byteLength + byteLength (t.take n)) =
      (r.map (· + passed.length)).map fun n => byte + byteLength ((passed ++ t).take n) := by
  cases r with
  | none => rfl
  | some n =>
    simp only [Option.map_some, Nat.add_comm n, List.take_length_add_append, byteLength_append,
      Nat.add_assoc]

theorem bracesBehind?_eq (braces : Nat) (c : Char) :
    bracesBehind? (braces + 1) c =
      some (openBraces
        (if c = '{' then braces + 2 else if c = '}' then braces else braces + 1)) := by
  unfold bracesBehind?
  by_cases hopen : c = '{'
  · rw [if_pos hopen, if_pos hopen]
    rfl
  · rw [if_neg hopen, if_neg hopen]
    by_cases hclose : c = '}'
    · rw [if_pos hclose, if_pos hclose, minus?_of_le (Nat.le_add_left 1 braces), Nat.add_sub_cancel,
        Option.map_some]
    · rw [if_neg hclose, if_neg hclose]
      rfl

/-- **The closing parenthesis ends at the byte behind its characters**, and no count on the way
falls below zero. -/
theorem closingByte?_eq (parens braces byte : Nat) (t : Text) :
    closingByte? (parens + 1) (openBraces braces) byte t =
      some ((closingParen? parens braces t).map fun n => byte + byteLength (t.take n)) := by
  have houtside : openBraces 0 = none := rfl
  induction parens, braces, t using closingParen?.induct generalizing byte with
  | case1 parens braces => cases braces <;> rfl
  | case2 parens c t braces inside ih =>
    have hinside : openBraces (braces + 1) = some (braces + 1) := rfl
    rw [hinside, closingByte?, bracesBehind?_eq, Option.bind_eq_bind, Option.bind_some, ih,
      closingParen?]
    exact congrArg some (map_passed_length byte [c] t _)
  | case3 parens c t ih =>
    rw [houtside] at ih ⊢
    rw [closingByte?, Nat.add_assoc, ih, closingParen?]
    exact congrArg some (map_passed_length byte ['\\', c] t _)
  | case4 parens t ih =>
    have hinside : openBraces 1 = some 1 := rfl
    rw [houtside, closingByte?, ← hinside, ih, closingParen?]
    exact congrArg some (map_passed_length byte ['#', '{'] t _)
  | case5 parens t ih =>
    rw [houtside] at ih ⊢
    rw [closingByte?, ih, closingParen?]
    exact congrArg some (map_passed_length byte ['('] t _)
  | case6 t => rfl
  | case7 t parens ih =>
    rw [houtside] at ih ⊢
    rw [closingByte?, minus?_of_le (Nat.le_add_left 1 _), Nat.add_sub_cancel, Option.bind_eq_bind,
      Option.bind_some, if_neg (Nat.succ_ne_zero parens), ih, closingParen?]
    exact congrArg some (map_passed_length byte [')'] t _)
  | case8 parens c t hescape hinterpolation hopen hclose ih =>
    rw [houtside] at ih ⊢
    rw [closingByte?, ih, closingParen?]
    · exact congrArg some (map_passed_length byte [c] t _)
    all_goals assumption

theorem balancedBytes?_eq (t : Text) :
    balancedBytes? t = some (t.balancedLength?.map fun n => byteLength (t.take n)) := by
  have hclosing := closingByte?_eq 0 0 0 t
  simp only [Nat.zero_add] at hclosing
  exact hclosing

end Text

/-! ### Colors -/

namespace Color

/-- The number that digits of base sixteen write. -/
def hexNumber (t : Text) : Nat :=
  t.foldl (fun n c => 16 * n + hexValue c) 0

/-- A share of a color, which is a byte. -/
def share? (n : Nat) : Option UInt8 :=
  if n < 256 then some (.ofNat n) else none

/-- The color that a text without the hash sign writes.  Its shares are slices of the text: one
digit is short for two of them, and two digits are the share. -/
def ofHexBytes? (t : Text) : Option (Option Color) :=
  if t.all isHexDigit then
    match t.byteLength with
    | 3 => do
      let red ← share? (17 * hexNumber (← t.sliceBytes? 0 1))
      let green ← share? (17 * hexNumber (← t.sliceBytes? 1 2))
      let blue ← share? (17 * hexNumber (← t.sliceBytes? 2 3))
      some (some ⟨red, green, blue⟩)
    | 6 => do
      let red ← share? (hexNumber (← t.sliceBytes? 0 2))
      let green ← share? (hexNumber (← t.sliceBytes? 2 4))
      let blue ← share? (hexNumber (← t.sliceBytes? 4 6))
      some (some ⟨red, green, blue⟩)
    | _ => some none
  else
    some none

theorem digit_bounds {c : Char} (h : isHexDigit c = true) : c.utf8Size = 1 ∧ hexValue c < 16 := by
  have hle : c.toNat < 103 := by
    simp only [isHexDigit, Char.isDigit, Bool.or_eq_true, Bool.and_eq_true, decide_eq_true_eq] at h
    rcases h with (⟨-, h⟩ | ⟨-, h⟩) | ⟨-, h⟩
    · exact Nat.lt_of_le_of_lt (UInt32.le_iff_toNat_le.mp h) (by decide)
    · exact Nat.lt_of_le_of_lt (UInt32.le_iff_toNat_le.mp h) (by decide)
    · exact Nat.lt_of_le_of_lt (UInt32.le_iff_toNat_le.mp h) (by decide)
  have hall : ∀ n < 103, isHexDigit (Char.ofNat n) = true →
      (Char.ofNat n).utf8Size = 1 ∧ hexValue (Char.ofNat n) < 16 := by decide +kernel
  rw [← Char.ofNat_toNat c] at h ⊢
  exact hall c.toNat hle h

theorem byteLength_of_digits {t : Text} (h : t.all isHexDigit = true) :
    t.byteLength = t.length := by
  induction t with
  | nil => rfl
  | cons c t ih =>
    rw [List.all_cons, Bool.and_eq_true] at h
    rw [Text.byteLength_cons, (digit_bounds h.1).1, ih h.2, List.length_cons, Nat.add_comm]

/-- Both ways to write a share give a byte. -/
theorem share?_short {c : Char} (h : isHexDigit c = true) :
    share? (17 * hexNumber [c]) = some (byte c c) := by
  have hlt := (digit_bounds h).2
  have hnumber : 17 * hexNumber [c] = 16 * hexValue c + hexValue c := by
    show 17 * (16 * 0 + hexValue c) = _
    omega
  rw [hnumber, share?, if_pos (by omega), byte]

theorem share?_long {c d : Char} (hc : isHexDigit c = true) (hd : isHexDigit d = true) :
    share? (hexNumber [c, d]) = some (byte c d) := by
  have hlt := (digit_bounds hc).2
  have hlt' := (digit_bounds hd).2
  have hnumber : hexNumber [c, d] = 16 * hexValue c + hexValue d := by
    show 16 * (16 * 0 + hexValue c) + hexValue d = _
    omega
  rw [hnumber, share?, if_pos (by omega), byte]

/-- Slices of digits are the digits between two positions. -/
theorem slice_of_digits {t : Text} (ht : t.all isHexDigit = true) (front mid back : Text)
    (hsplit : t = front ++ mid ++ back) :
    t.sliceBytes? front.length (front ++ mid).length = some mid := by
  subst hsplit
  rw [List.all_append, List.all_append, Bool.and_eq_true, Bool.and_eq_true] at ht
  obtain ⟨⟨hfront, hmid⟩, -⟩ := ht
  have hboth : (front ++ mid).all isHexDigit = true := by
    rw [List.all_append, hfront, hmid]
    rfl
  rw [← byteLength_of_digits hfront, ← byteLength_of_digits hboth, Text.sliceBytes?_append]

/-- **The slices of a color are its digits.** -/
theorem ofHexBytes?_eq (t : Text) : ofHexBytes? t = some (ofHex? t) := by
  unfold ofHexBytes? ofHex?
  by_cases hall : t.all isHexDigit = true
  · have hdigit := List.all_eq_true.mp hall
    rw [if_pos hall, if_pos hall, byteLength_of_digits hall]
    match t with
    | [r, g, b] =>
      have hred : Text.sliceBytes? [r, g, b] 0 1 = some [r] :=
        slice_of_digits hall [] [r] [g, b] rfl
      have hgreen : Text.sliceBytes? [r, g, b] 1 2 = some [g] :=
        slice_of_digits hall [r] [g] [b] rfl
      have hblue : Text.sliceBytes? [r, g, b] 2 3 = some [b] :=
        slice_of_digits hall [r, g] [b] [] rfl
      simp only [List.length_cons, List.length_nil, hred, hgreen, hblue, Option.bind_eq_bind,
        Option.bind_some, share?_short (hdigit r (by simp)), share?_short (hdigit g (by simp)),
        share?_short (hdigit b (by simp))]
    | [r, r', g, g', b, b'] =>
      have hred : Text.sliceBytes? [r, r', g, g', b, b'] 0 2 = some [r, r'] :=
        slice_of_digits hall [] [r, r'] [g, g', b, b'] rfl
      have hgreen : Text.sliceBytes? [r, r', g, g', b, b'] 2 4 = some [g, g'] :=
        slice_of_digits hall [r, r'] [g, g'] [b, b'] rfl
      have hblue : Text.sliceBytes? [r, r', g, g', b, b'] 4 6 = some [b, b'] :=
        slice_of_digits hall [r, r', g, g'] [b, b'] [] rfl
      simp only [List.length_cons, List.length_nil, hred, hgreen, hblue, Option.bind_eq_bind,
        Option.bind_some, share?_long (hdigit r (by simp)) (hdigit r' (by simp)),
        share?_long (hdigit g (by simp)) (hdigit g' (by simp)),
        share?_long (hdigit b (by simp)) (hdigit b' (by simp))]
    | [] | [_] | [_, _] | [_, _, _, _] | [_, _, _, _, _] | _ :: _ :: _ :: _ :: _ :: _ :: _ :: _ =>
      rfl
  · rw [if_neg hall, if_neg hall]

end Color

/-! ### Tokens -/

/-- A token at the front of a text, by the bytes it takes. -/
structure ByteLexeme where
  kind : TokenKind
  /-- The number of bytes it takes. -/
  bytes : Nat
  /-- The quotes of a string that is cut short by an interpolation. -/
  opens : Option Quote := none

/-- The same token by its bytes. -/
def Lexeme.inBytes (x : Lexeme) (t : Text) : ByteLexeme :=
  ⟨x.kind, Text.byteLength (t.take x.length), x.opens⟩

namespace ByteLexeme

/-- What a pattern matches at the front of a text. -/
def ofMatch? (t : Text) (x : Option Lexeme) : Option (Option ByteLexeme) :=
  some (x.map (·.inBytes t))

/-- The first of two rules that fits. -/
def orElse? (first second : Option (Option ByteLexeme)) : Option (Option ByteLexeme) :=
  first.bind fun found =>
    match found with
    | some x => some (some x)
    | none => second

/-- The segment of a string that starts at a byte of a text. -/
def segment? (q : Quote) (start : Nat) (t : Text) : Option (Option ByteLexeme) := do
  let body ← t.dropBytes? start
  match ← Text.stringEnd? q t start body with
  | none => some none
  | some (byte, .closed) =>
    let value ← t.sliceBytes? start byte
    some (some ⟨.string (Text.unescape value) q, byte + q.char.utf8Size, none⟩)
  | some (byte, .interpolated) =>
    let value ← t.sliceBytes? start byte
    some (some ⟨.string (Text.unescape value) q, byte, some q⟩)

/-- A string, or its first segment. -/
def string? (q : Quote) (t : Text) : Option (Option ByteLexeme) :=
  if t.head? = some q.char then segment? q q.char.utf8Size t else some none

/-- A color. -/
def color? : Text → Option (Option ByteLexeme)
  | '#' :: t =>
    match Lexeme.colorDigits? t with
    | none => some none
    | some n =>
      if (t.drop n).head?.any isNameChar then some none
      else do
        match ← Color.ofHexBytes? (t.take n) with
        | none => some none
        | some color => some (some ⟨.color color, '#'.utf8Size + Text.byteLength (t.take n), none⟩)
  | _ => some none

/-- The rules that come before special functions. -/
def leading? (t : Text) : Option (Option ByteLexeme) :=
  orElse? (ofMatch? t (Lexeme.reference? t)) <|
    orElse? (string? .double t) <| orElse? (string? .single t) <|
    orElse? (ofMatch? t (Lexeme.number? t)) <|
    orElse? (color? t) <|
    orElse? (ofMatch? t (Lexeme.bool? t)) <|
    orElse? (ofMatch? t (Lexeme.span? Recognizer.uri .uri t)) <|
      ofMatch? t (Lexeme.span? Recognizer.unicodeRange .unicodeRange t)

/-- The rules that come after special functions. -/
def trailing? (inside : Bool) (t : Text) : Option (Option ByteLexeme) :=
  orElse? (ofMatch? t (Lexeme.wordOp? t)) <| orElse? (ofMatch? t (Lexeme.ident? t)) <|
    ofMatch? t (Lexeme.symbol? inside t)

/-- A rule by bytes that always has an answer, that of a rule by characters. -/
theorem orElse?_eq {t : Text} {x y : Option Lexeme} {first second : Option (Option ByteLexeme)}
    (hfirst : first = ofMatch? t x) (hsecond : second = ofMatch? t y) :
    orElse? first second = ofMatch? t (x <|> y) := by
  rw [hfirst, hsecond]
  cases x <;> rfl

theorem head?_of_closed {q : Quote} {t : Text} {n : Nat} (h : segmentEnd? q t = some (n, .closed)) :
    (t.drop n).head? = some q.char := by
  induction t using segmentEnd?.induct q generalizing n with
  | case1 => cases h
  | case2 c t ih =>
    rw [segmentEnd?] at h
    obtain ⟨⟨m, e⟩, hm, heq⟩ := Option.map_eq_some_iff.mp h
    cases heq
    exact ih hm
  | case3 t hescape =>
    rw [segmentEnd?, if_pos rfl] at h
    · cases h
      rfl
    · exact hescape
  | case4 c t hescape hc hopening =>
    rw [segmentEnd?, if_neg hc, if_pos hopening] at h
    · cases h
    · exact hescape
  | case5 c t hescape hc hopening ih =>
    rw [segmentEnd?, if_neg hc, if_neg hopening] at h
    · obtain ⟨⟨m, e⟩, hm, heq⟩ := Option.map_eq_some_iff.mp h
      cases heq
      exact ih hm
    · exact hescape

/-- A segment behind some text, such as an opening quote. -/
theorem segment?_eq (q : Quote) (before t : Text) :
    segment? q before.byteLength (before ++ t) =
      some ((Lexeme.segment? q t).map fun x =>
        ⟨x.kind, before.byteLength + Text.byteLength (t.take x.length), x.opens⟩) := by
  have hvalue : ∀ n, Text.sliceBytes? (before ++ t) before.byteLength
      (before.byteLength + Text.byteLength (t.take n)) = some (t.take n) := by
    intro n
    have hslice := Text.sliceBytes?_append before (t.take n) (t.drop n)
    rwa [List.append_assoc, List.take_append_drop, Text.byteLength_append] at hslice
  simp only [segment?, Text.dropBytes?_append, Text.stringEnd?_eq, Option.bind_eq_bind,
    Option.bind_some, Lexeme.segment?]
  cases hend : segmentEnd? q t with
  | none => rfl
  | some r =>
    obtain ⟨n, e⟩ := r
    cases e with
    | closed =>
      have hquote : t.take (n + 1) = t.take n ++ [q.char] := by
        rw [List.take_add_one, ← List.head?_drop, head?_of_closed hend]
        rfl
      simp only [Option.map_some, hvalue, Option.bind_some, hquote, Text.byteLength_append,
        Nat.add_assoc]
      rfl
    | interpolated => simp only [Option.map_some, hvalue, Option.bind_some]

theorem segment?_front (q : Quote) (t : Text) :
    segment? q 0 t = ofMatch? t (Lexeme.segment? q t) := by
  refine (segment?_eq q [] t).trans ?_
  simp only [Text.byteLength_nil, Nat.zero_add]
  rfl

theorem string?_eq (q : Quote) (t : Text) : string? q t = ofMatch? t (Lexeme.string? q t) := by
  cases t with
  | nil => rfl
  | cons c t =>
    rw [string?, Lexeme.string?, List.head?_cons]
    by_cases hc : c = q.char
    · subst hc
      rw [if_pos rfl, if_pos rfl]
      refine (segment?_eq q [q.char] t).trans ?_
      rw [ofMatch?, Option.map_map]
      rfl
    · rw [if_neg hc, if_neg (mt Option.some.inj hc)]
      rfl

theorem color?_eq (t : Text) : color? t = ofMatch? t (Lexeme.color? t) := by
  unfold color?
  split
  · next t =>
    rw [Lexeme.color?_eq]
    cases Lexeme.colorDigits? t with
    | none => rfl
    | some n =>
      simp only [Option.bind_some, Color.ofHexBytes?_eq, Option.bind_eq_bind]
      by_cases hname : (t.drop n).head?.any isNameChar = true
      · simp only [if_pos hname]
        cases Color.ofHex? (t.take n) <;> rfl
      · simp only [if_neg hname]
        cases Color.ofHex? (t.take n) <;> rfl
  · next hsign =>
    rw [Lexeme.color?]
    · rfl
    · exact hsign

/-- **The rules find the same tokens by bytes as by characters.** -/
theorem leading?_eq (t : Text) : leading? t = ofMatch? t (Lexeme.leading? t) :=
  orElse?_eq rfl <| orElse?_eq (string?_eq .double t) <| orElse?_eq (string?_eq .single t) <|
    orElse?_eq rfl <|
    orElse?_eq (color?_eq t) <| orElse?_eq rfl <| orElse?_eq rfl rfl

theorem trailing?_eq (inside : Bool) (t : Text) :
    trailing? inside t = ofMatch? t (Lexeme.trailing? inside t) :=
  orElse?_eq rfl <| orElse?_eq rfl rfl

end ByteLexeme
end Stylesheet
