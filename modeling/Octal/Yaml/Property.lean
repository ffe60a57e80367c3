import Octal.Text.Digit
import Octal.Yaml.Cursor
import Octal.Yaml.Token

/-!
# Names, tags and directives

A node can have a name, by which it is referred to later, and a tag that states its type. Directives
stand before a document. The readers give a token and the cursor after it, or the number of the line
that is wrong.
-/

namespace Octal.Yaml

/-- The signs that may follow a name at once. -/
def endsName (c : Char) : Bool :=
  isSpaceOrBreak c || c == '?' || c == ':' || c == ',' || c == ']' || c == '\x7d' || c == '%' ||
    c == '@' || c == '\x60'

/-- A name. -/
def readName (c : Cursor) : Except Nat (String × Cursor) :=
  let name := c.rest.takeWhile isNameChar
  let after := (c.advance name.length).look 1
  if name.isEmpty || !(after.rest.isEmpty || after.sees endsName) then .error c.line
  else .ok (String.ofList name, after)

/-! ### Tags -/

/-- The characters of tags, besides those of names. -/
def isTagChar (c : Char) : Bool := isNameChar c || ";/?:@&=+$,.!~*'()[]%".toList.contains c

/-- The bytes that tag text stands for. A percent sign leads two hexadecimal digits. -/
def tagBytes? : List Char → Option (List UInt8)
  | [] => some []
  | '%' :: a :: b :: rest => do
    let x ← Text.digitIn? 16 a
    let y ← Text.digitIn? 16 b
    return UInt8.ofNat (x * 16 + y) :: (← tagBytes? rest)
  | c :: rest => if c == '%' then none else (tagBytes? rest).map (c.toString.toUTF8.toList ++ ·)

/-- Tag text, of which `head` has been read. -/
def readTagText (head : List Char) (c : Cursor) : Except Nat (String × Cursor) :=
  let chars := c.rest.takeWhile isTagChar
  let text := (tagBytes? (head.drop 1 ++ chars)).bind fun bytes =>
    String.fromUTF8? (ByteArray.mk bytes.toArray)
  match text with
  | none => .error c.line
  | some text =>
    if head.isEmpty && chars.isEmpty then .error c.line
    else .ok (text, (c.advance chars.length).look 1)

/-- A handle: an exclamation mark, and what may follow it up to another one. -/
def readHandle (c : Cursor) : Except Nat (List Char × Cursor) :=
  match c.rest with
  | '!' :: rest =>
    let name := rest.takeWhile isNameChar
    let close := (rest.drop name.length).take 1
    let handle := '!' :: name ++ (if close == ['!'] then close else [])
    .ok (handle, (c.advance handle.length).look 1)
  | _ => .error c.line

/-- Whether a handle has an exclamation mark at both ends. -/
def isClosedHandle (handle : List Char) : Bool :=
  2 ≤ handle.length && handle.getLast? == some '!'

/-- A tag in one of its forms: in brackets, with a handle, or with an exclamation mark only. -/
def readTag (c : Cursor) : Except Nat (Token.Form × Cursor) := do
  let (form, c) ←
    if c.rest.take 2 == ['!', '<'] then do
      let (text, after) ← readTagText [] (c.advance 2)
      if after.sees (· == '>') then pure (Token.Form.tag "" text, after.advance 1) else throw c.line
    else do
      let (handle, after) ← readHandle c
      if isClosedHandle handle then
        let (suffix, after) ← readTagText [] after
        pure (Token.Form.tag (String.ofList handle) suffix, after)
      else
        let (suffix, after) ← readTagText handle after
        pure (if suffix.isEmpty then Token.Form.tag "" "!" else Token.Form.tag "!" suffix, after)
  if atBoundary c.rest then return (form, c.look 1) else throw c.line

/-! ### Directives -/

/-- A number of one or two digits. -/
def readVersionNumber (c : Cursor) : Except Nat (Nat × Cursor) :=
  let digits := c.rest.takeWhile Text.isDigit
  if digits.isEmpty || 2 < digits.length then .error c.line
  else .ok (Text.natOfDigits digits, (c.advance digits.length).look 1)

/-- The version of the language. -/
def readVersion (c : Cursor) : Except Nat (Token.Form × Cursor) := do
  let (major, c) ← readVersionNumber c.skipSpaces
  if !c.sees (· == '.') then throw c.line
  let (minor, c) ← readVersionNumber (c.advance 1)
  return (.version major minor, c)

/-- The declaration of a handle. -/
def readHandleDirective (c : Cursor) : Except Nat (Token.Form × Cursor) := do
  let (handle, c) ← readHandle c.skipSpaces
  if !(handle == ['!'] || isClosedHandle handle) || !c.sees isSpace then throw c.line
  let (stem, c) ← readTagText [] c.skipSpaces
  if atBoundary c.rest then return (.tagHandle (String.ofList handle) stem, c) else throw c.line

/-- A directive with the rest of its line, after the percent sign. -/
def readDirective (c : Cursor) : Except Nat (Token.Form × Cursor) := do
  let name := c.rest.takeWhile isNameChar
  let after := c.advance name.length
  if name.isEmpty || !atBoundary after.rest then throw c.line
  let (form, c) ←
    match String.ofList name with
    | "YAML" => readVersion after
    | "TAG" => readHandleDirective after
    | _ => throw c.line
  let c := c.skipSpaces.look 1
  let c := if c.sees (· == '#') then c.endLine else c
  if c.rest.isEmpty then return (form, c)
  else if c.sees isBreak then return (form, (c.look 2).nextLine)
  else throw c.line

end Octal.Yaml
