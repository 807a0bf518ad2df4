/-!
# Binary floating point numbers of 64 bits

A number token carries the double nearest to the decimal that is written, a tie going to the even
neighbour. It is computed exactly: the decimal is a fraction of naturals, its distance to the grid
of doubles is a remainder, and the result is the pattern of bits.
-/

namespace Stylesheet

/-- A double, as its bits. -/
structure Binary64 where
  bits : UInt64
  deriving DecidableEq, Repr

namespace Binary64

/-- The quotient rounded to the nearest integer, a tie to the even one. -/
def roundedQuotient (num den : Nat) : Nat :=
  let q := num / den
  let twice := 2 * (num % den)
  if twice < den ∨ (twice = den ∧ q % 2 = 0) then q else q + 1

/-- The exponent of the greatest power of two that is not above a positive fraction. -/
def floorLog (num den : Nat) : Int :=
  let e : Int := (num.log2 : Int) - (den.log2 : Int)
  if num * Nat.pow 2 (-e).toNat < den * Nat.pow 2 e.toNat then e - 1 else e

/-- The bits of infinity. -/
def infinityBits : Nat :=
  0x7FF * Nat.pow 2 52

/-- The bits of the double nearest to a fraction. With the unit `2 ^ q` of its binade, of which the
least is `2 ^ (-1074)`, the bits count the doubles below it: `2 ^ 52` for each binade passed and the
multiple of the unit within its own. A fraction that rounds beyond the greatest double gives
infinity. -/
def nearestBits (num den : Nat) : Nat :=
  if num = 0 then 0
  else
    let q := max (floorLog num den - 52) (-1074)
    let multiple := roundedQuotient (num * Nat.pow 2 (-q).toNat) (den * Nat.pow 2 q.toNat)
    min infinityBits ((q + 1074).toNat * Nat.pow 2 52 + multiple)

/-- The double nearest to `num / den`, or its opposite. -/
def nearest (negative : Bool) (num den : Nat) : Binary64 :=
  ⟨.ofNat ((if negative then Nat.pow 2 63 else 0) + nearestBits num den)⟩

/-- The natural number a run of ASCII digits writes. -/
def ofDigits (digits : List Char) : Nat :=
  digits.foldl (fun n c => 10 * n + (c.toNat - '0'.toNat)) 0

/-- The double nearest to the decimal with these digits before and after the point. Digits of other
scripts than ASCII write no number, and the result is zero. -/
def ofDecimal (negative : Bool) (whole fraction : List Char) : Binary64 :=
  if (whole ++ fraction).all Char.isDigit then
    nearest negative (ofDigits (whole ++ fraction)) (Nat.pow 10 fraction.length)
  else
    nearest negative 0 1

end Binary64
end Stylesheet
