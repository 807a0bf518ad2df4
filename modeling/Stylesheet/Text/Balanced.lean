import Stylesheet.Text.Basic

/-!
# Balanced parentheses

Some spans are taken whole, up to the parenthesis that closes them. Escapes hide a parenthesis,
and so does an interpolation, which is skipped by counting braces alone.
-/

namespace Stylesheet.Text

/-- The number of characters up to and including the closing parenthesis, where `parens` more
parentheses are open inside and `braces` braces of an interpolation are. -/
def closingParen? (parens braces : Nat) : Text → Option Nat
  | [] => none
  | c :: t =>
    match braces with
    | braces + 1 =>
      let braces := if c = '{' then braces + 2 else if c = '}' then braces else braces + 1
      (closingParen? parens braces t).map (· + 1)
    | 0 =>
      match c, t with
      | '\\', _ :: t => (closingParen? parens 0 t).map (· + 2)
      | '#', '{' :: t => (closingParen? parens 1 t).map (· + 2)
      | '(', t => (closingParen? (parens + 1) 0 t).map (· + 1)
      | ')', t =>
        match parens with
        | 0 => some 1
        | parens + 1 => (closingParen? parens 0 t).map (· + 1)
      | _, t => (closingParen? parens 0 t).map (· + 1)

/-- The number of characters up to and including the parenthesis that closes one already open. -/
def balancedLength? (t : Text) : Option Nat :=
  closingParen? 0 0 t

end Stylesheet.Text
