import Octal.Text.Digit

/-!
# Decimal numbers

Numbers with a point or an exponent, rounded to the nearest number of 53 significant bits, a tie going
to the even one.
-/

namespace Octal

/-- The number `coefficient * 10 ^ exponent`, with a sign. -/
structure Decimal where
  negative : Bool
  coefficient : Nat
  exponent : Int
deriving DecidableEq, Repr

namespace Decimal

open Text

/-- The exponent that ends a number: nothing, or `e` and an integer. -/
def exponent? : List Char → Option Int
  | [] => some 0
  | e :: rest =>
    if e == 'e' || e == 'E' then
      let (negative, ds) := match rest with
        | '-' :: ds => (true, ds)
        | '+' :: ds => (false, ds)
        | ds => (false, ds)
      if ds.isEmpty || !ds.all isDigit then none
      else if negative then some (-natOfDigits ds) else some (natOfDigits ds)
    else none

/-- A number without its sign. There is a digit before the point or one after it. -/
def unsigned? (negative : Bool) (cs : List Char) : Option Decimal :=
  let whole := cs.takeWhile isDigit
  let (places, rest) := match cs.dropWhile isDigit with
    | '.' :: rest => (rest.takeWhile isDigit, rest.dropWhile isDigit)
    | rest => ([], rest)
  let digits := whole ++ places
  if digits.isEmpty then none
  else (exponent? rest).map fun e => ⟨negative, natOfDigits digits, e - places.length⟩

/-- The number that `cs` spells. -/
def ofChars? : List Char → Option Decimal
  | '-' :: cs => unsigned? true cs
  | '+' :: cs => unsigned? false cs
  | cs => unsigned? false cs

/-- `num / den` rounded to an integer, a tie going to the even one. -/
def roundDiv (num den : Nat) : Nat :=
  let q := num / den
  let twice := 2 * (num % den)
  if twice < den then q else if den < twice then q + 1 else q + q % 2

/-- The integer part of `num / den` after rounding to 53 bits. -/
def truncate (num den : Nat) : Nat :=
  -- The quotient is at least `2 ^ (bits - 1)`.
  let bits := num.log2 - den.log2
  if 53 ≤ bits then
    let shift := bits - 52
    let shift := if num < den <<< (shift + 52) then shift - 1 else shift
    roundDiv num (den <<< shift) <<< shift
  else
    let places := 53 - bits
    let places := if num <<< places < den <<< 53 then places else places - 1
    roundDiv (num <<< places) den >>> places

/-- The integer part, or none when the number is beyond all that can be represented. -/
def whole? (d : Decimal) : Option Int :=
  let size : Int := d.coefficient.repr.length + d.exponent
  if d.coefficient = 0 || size < -20 then some 0
  else if 310 < size then none
  else
    let n :=
      if 0 ≤ d.exponent then truncate (d.coefficient * Nat.pow 10 d.exponent.toNat) 1
      else truncate d.coefficient (Nat.pow 10 (-d.exponent).toNat)
    if 1 <<< 1024 ≤ n then none else some (if d.negative then -n else n)

end Decimal

end Octal
