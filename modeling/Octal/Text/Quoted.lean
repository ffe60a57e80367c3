import Octal.Text.Printable

/-!
# Quoted text

How messages show a character or a string between quotes. A printable character stands for itself,
the quote and the backslash are escaped, and every other character is written by a short escape or
by its code.
-/

namespace Octal.Text

/-- `n` in lower-case hexadecimal with at least `digits` digits. -/
def hexDigits (digits n : Nat) : String :=
  let ds := Nat.toDigits 16 n
  String.ofList (List.replicate (digits - ds.length) '0' ++ ds)

/-- The escapes with a letter of their own. -/
def shortEscape : Nat → Option Char
  | 0x07 => some 'a'
  | 0x08 => some 'b'
  | 0x09 => some 't'
  | 0x0A => some 'n'
  | 0x0B => some 'v'
  | 0x0C => some 'f'
  | 0x0D => some 'r'
  | _ => none

/-- `c` as written between two `quote`s. -/
def escape (quote c : Char) : String :=
  if c = quote || c = '\\' then String.ofList ['\\', c]
  else if isPrintable c then String.singleton c
  else match shortEscape c.toNat with
    | some e => String.ofList ['\\', e]
    | none =>
      if c.toNat < 0x80 then "\\x" ++ hexDigits 2 c.toNat
      else if c.toNat < 0x10000 then "\\u" ++ hexDigits 4 c.toNat
      else "\\U" ++ hexDigits 8 c.toNat

/-- `c` between single quotes. -/
def quoteChar (c : Char) : String := "'" ++ escape '\'' c ++ "'"

/-- `s` between double quotes. -/
def quote (s : String) : String := "\"" ++ String.join (s.toList.map (escape '"')) ++ "\""

end Octal.Text
