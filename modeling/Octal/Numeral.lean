import Octal.Arithmetic
import Octal.Text.Blank

/-!
# Octal numerals

The written form of values: an optional minus and digits from 0 to 7. `decode` accepts leading zeros
and surrounding white space; `encode` writes neither.
-/

namespace Octal.Numeral

def isOctalDigit (c : Char) : Bool := '0' ≤ c && c ≤ '7'

/-- The weight of a digit. -/
def digitValue (c : Char) : UInt64 := (c.toNat - '0'.toNat).toUInt64

/-- The greatest magnitude that can take one more digit without leaving 64 bits. -/
def maxBeforeShift : UInt64 := (0xFFFFFFFFFFFFFFFF - 7) / 8

def pushDigit (magnitude : UInt64) (c : Char) : Except Error UInt64 :=
  if maxBeforeShift < magnitude then .error .overflow else .ok (magnitude * 8 + digitValue c)

/-- The magnitude of a string of octal digits. It is unsigned, so that the magnitude of the least
value fits. -/
def magnitude (digits : List Char) : Except Error UInt64 := digits.foldlM pushDigit 0

/-- The value with the given sign and magnitude. -/
def signed (negative : Bool) (magnitude : UInt64) : Except Error Value :=
  if negative then
    if 0x8000000000000000 < magnitude then .error .overflow else .ok (-magnitude.toInt64)
  else if 0x7FFFFFFFFFFFFFFF < magnitude then .error .overflow
  else .ok magnitude.toInt64

/-- The value of what follows the sign. A character that is no octal digit is reported before an
overflow. -/
def decodeDigits (negative : Bool) (digits : List Char) : Except Error Value :=
  if digits.isEmpty then .error (.malformed none .emptyNumeral)
  else match digits.find? (!isOctalDigit ·) with
    | some c => .error (.badDigit c)
    | none => magnitude digits >>= signed negative

/-- The value a numeral denotes. -/
def decode (text : List Char) : Except Error Value :=
  match Text.trimChars text with
  | '-' :: digits => decodeDigits true digits
  | digits => decodeDigits false digits

/-- The shortest numeral for `v`. -/
def encode (v : Value) : String :=
  let n := v.toInt
  let digits := String.ofList (Nat.toDigits 8 n.natAbs)
  if n < 0 then "-" ++ digits else digits

end Octal.Numeral
