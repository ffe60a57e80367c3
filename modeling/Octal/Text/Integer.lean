import Octal.Text.Digit

/-!
# Integer literals

Decimal integers, and integers with a base prefix: `0x`, `0b`, `0o`, or a leading `0` for octal.
Digits may be separated by single underscores where a prefix is allowed. Integers have 64 bits.
-/

namespace Octal.Text

/-- Why a text is no integer. -/
inductive IntegerFault where
  | notInteger
  | outOfRange
deriving DecidableEq, Repr

/-- The number that `digits` add to `n` in base `base`. The first digit that is wrong or leaves
64 bits decides the fault. -/
def readDigits (base : Nat) (underscores : Bool) (n : Nat) : List Char → Except IntegerFault Nat
  | [] => .ok n
  | c :: rest =>
    if underscores && c == '_' then readDigits base underscores n rest
    else match digitIn? base c with
      | none => .error .notInteger
      | some d =>
        if UInt64.size ≤ n * base + d then .error .outOfRange
        else readDigits base underscores (n * base + d) rest

/-- The base that a prefix announces, and the digits after it. -/
def splitPrefix : List Char → Nat × List Char
  | '0' :: c :: d :: rest =>
    if c == 'x' || c == 'X' then (16, d :: rest)
    else if c == 'b' || c == 'B' then (2, d :: rest)
    else if c == 'o' || c == 'O' then (8, d :: rest)
    else (8, c :: d :: rest)
  | '0' :: rest => (8, rest)
  | digits => (10, digits)

/-- Whether every underscore stands between two digits; `afterDigit` says whether a digit, or the
prefix, comes before. -/
def underscoresSeparate (isDigit : Char → Bool) (afterDigit : Bool) : List Char → Bool
  | [] => true
  | '_' :: c :: rest => afterDigit && isDigit c && underscoresSeparate isDigit false (c :: rest)
  | ['_'] => false
  | c :: rest => underscoresSeparate isDigit (isDigit c) rest

/-- The magnitude of an unsigned integer with an optional base prefix. -/
def readUnsigned (digits : List Char) : Except IntegerFault Nat :=
  if digits.isEmpty then .error .notInteger
  else
    let (base, rest) := splitPrefix digits
    match readDigits base true 0 rest with
    | .error fault => .error fault
    | .ok n =>
      let isDigit := fun c => (digitIn? (max base 10) c).isSome
      let prefixed := base != 10
      if underscoresSeparate isDigit prefixed rest then .ok n else .error .notInteger

/-- The sign of a text and what follows it. -/
def splitSign : List Char → Bool × List Char
  | '-' :: rest => (true, rest)
  | '+' :: rest => (false, rest)
  | rest => (false, rest)

/-- `n` with a sign, if it fits 64 bits. -/
def applySign (negative : Bool) (n : Nat) : Except IntegerFault Int :=
  if negative then if Int64.minValue.toInt ≤ -n then .ok (-n) else .error .outOfRange
  else if n ≤ Int64.maxValue.toInt then .ok n else .error .outOfRange

/-- The signed integer that `s` denotes, with an optional base prefix. -/
def readInteger (s : String) : Except IntegerFault Int := do
  let (negative, digits) := splitSign s.toList
  applySign negative (← readUnsigned digits)

/-- The signed integer that `s` denotes in decimal. -/
def readDecimal (cs : List Char) : Except IntegerFault Int := do
  let (negative, digits) := splitSign cs
  if digits.isEmpty then throw .notInteger
  applySign negative (← readDigits 10 false 0 digits)

end Octal.Text
