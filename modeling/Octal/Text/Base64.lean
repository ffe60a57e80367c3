import Octal.Text.Digit
import Octal.Text.Rune

/-!
# Bytes as text in base 64

Four characters stand for three bytes, and `=` fills up the last four. Line ends do not count.
-/

namespace Octal.Text.Base64

/-- The value of a digit. -/
def digit? (c : Char) : Option Nat :=
  if 'A' ≤ c && c ≤ 'Z' then some (c.toNat - 'A'.toNat)
  else if 'a' ≤ c && c ≤ 'z' then some (c.toNat - 'a'.toNat + 26)
  else if isDigit c then some (c.toNat - '0'.toNat + 52)
  else if c == '+' then some 62
  else if c == '/' then some 63
  else none

/-- The first `count` bytes of four digits, missing ones being zero. -/
def group (count : Nat) (ds : List Nat) : Bytes :=
  let n := (ds ++ List.replicate (4 - ds.length) 0).foldl (fun n d => n * 64 + d) 0
  ([n / 65536, n / 256 % 256, n % 256].take count).map UInt8.ofNat

def groups? : List Char → Option Bytes
  | [] => some []
  | [a, b, '=', '='] => do return group 1 [← digit? a, ← digit? b]
  | [a, b, c, '='] => do return group 2 [← digit? a, ← digit? b, ← digit? c]
  | a :: b :: c :: d :: rest => do
    return group 3 [← digit? a, ← digit? b, ← digit? c, ← digit? d] ++ (← groups? rest)
  | _ => none

/-- The bytes that a text stands for. -/
def decode? (text : String) : Option Bytes :=
  groups? (text.toList.filter fun c => c != '\n' && c != '\r')

end Octal.Text.Base64
