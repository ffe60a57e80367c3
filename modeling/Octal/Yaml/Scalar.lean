import Octal.Calendar
import Octal.Text.Base64
import Octal.Text.Decimal
import Octal.Text.Integer

/-!
# Types of texts

Plain text is a null, a boolean, a number or a point in time if it is written like one, and a string
otherwise. A tag states the type instead; a text that is not written like a value of a type of the
language does not have it.
-/

namespace Octal.Yaml

/-- A floating-point number, as far as its integer part is concerned. -/
inductive FloatValue where
  | finite (whole : Int)
  | infinite (negative : Bool)
  | notANumber
deriving DecidableEq, Repr

/-- The integer part as a 64-bit integer. Numbers above all integers have none; numbers outside the
range otherwise become the least integer. -/
def FloatValue.toInteger? : FloatValue → Option Int
  | finite n =>
    if Int64.maxValue.toInt + 1 < n then none
    else if Int64.minValue.toInt ≤ n && n ≤ Int64.maxValue.toInt then some n
    else some Int64.minValue.toInt
  | infinite true => some Int64.minValue.toInt
  | infinite false | notANumber => none

/-- The value of a scalar. -/
inductive Scalar where
  | null
  | bool
  | int (n : Int)
  | float (x : FloatValue)
  | timestamp
  | str (text : String)
deriving DecidableEq, Repr

namespace Scalar

/-- The name of a scalar's type in messages. -/
def tag : Scalar → String
  | null => "!!null"
  | bool => "!!bool"
  | int _ => "!!int"
  | float _ => "!!float"
  | timestamp => "!!timestamp"
  | str _ => "!!str"

/-- The words that are no strings. -/
def word? : String → Option Scalar
  | "" | "~" | "null" | "Null" | "NULL" => some null
  | "true" | "True" | "TRUE" | "false" | "False" | "FALSE" => some bool
  | ".nan" | ".NaN" | ".NAN" => some (float .notANumber)
  | ".inf" | ".Inf" | ".INF" | "+.inf" | "+.Inf" | "+.INF" => some (float (.infinite false))
  | "-.inf" | "-.Inf" | "-.INF" => some (float (.infinite true))
  | _ => none

def ofExcept? {ε : Type} : Except ε Int → Option Scalar
  | .ok n => some (int n)
  | .error _ => none

/-- Digits in a given base, with a sign in front. -/
def signed (base : Nat) (cs : List Char) : Except Text.IntegerFault Int := do
  let (negative, digits) := Text.splitSign cs
  if digits.isEmpty then throw .notInteger
  Text.applySign negative (← Text.readDigits base false 0 digits)

/-- An integer with an optional base prefix. A sign stands before the prefix, or after `0b` and `0o`;
without one all 64 bits can be used. -/
def integer? (cs : List Char) : Option Scalar :=
  let afterPrefix := match cs with
    | '0' :: 'b' :: rest => ofExcept? (signed 2 rest)
    | '0' :: 'o' :: rest => ofExcept? (signed 8 rest)
    | _ => none
  ofExcept? (Text.readInteger (String.ofList cs)) <|>
    ofExcept? ((Text.readUnsigned cs).map Int.ofNat) <|> afterPrefix

def decimal? (cs : List Char) : Option Scalar :=
  (Decimal.ofChars? cs).bind fun d => d.whole?.map fun n => float (.finite n)

/-- A number or, if `readsTime`, a point in time. Underscores in a number do not count. -/
def number? (readsTime : Bool) (text : String) : Option Scalar :=
  let digits := text.toList.filter (· != '_')
  if readsTime && Timestamp.isAny text then some timestamp else integer? digits <|> decimal? digits

/-- Whether every underscore stands between digits. -/
def underscoresFit : List Char → Bool
  | [] => true
  | '_' :: _ => false
  | c :: '_' :: d :: rest => Text.isDigit c && Text.isDigit d && underscoresFit (d :: rest)
  | [_, '_'] => false
  | _ :: rest => underscoresFit rest

/-- The value that a text is written like, with points in time if `readsTime`. -/
def ofWritten (readsTime : Bool) (text : String) : Scalar :=
  (word? text).getD <|
    match text.toList with
    | '.' :: rest =>
      if underscoresFit rest then (decimal? ('.' :: rest.filter (· != '_'))).getD (str text)
      else str text
    | c :: _ =>
      if c == '+' || c == '-' || Text.isDigit c then (number? readsTime text).getD (str text)
      else str text
    | [] => null

/-- The value of a plain text. -/
def ofPlain (text : String) : Scalar := ofWritten true text

/-- The key whose value is merged into its mapping. -/
def mergeKey : String := "<<"

def mergeTag : String := "!!merge"

def binaryTag : String := "!!binary"

/-- The types of the language besides strings, whose values have to be written as such. -/
def checkedTags : List String := ["!!bool", "!!int", "!!float", "!!null", "!!timestamp"]

/-- The tag of a text that states `tag`. -/
def tagOf (tag : Option String) (isPlain : Bool) (text : String) : String :=
  tag.getD <|
    if !isPlain then (str text).tag
    else if text = mergeKey then mergeTag
    else (ofPlain text).tag

/-- An integer as a floating-point number. -/
def floatOfInt? (n : Int) : Option Scalar :=
  if n ≤ Int64.maxValue.toInt then
    let whole : Int := Decimal.truncate n.natAbs 1
    some (float (.finite (if n < 0 then -whole else whole)))
  else none

/-- The value of a text that states a type to be checked. Integers can be floating-point numbers. -/
def checked? (tag text : String) : Option Scalar :=
  let value := ofWritten (tag == timestamp.tag) text
  if value.tag = tag then some value
  else match value with
    | int n => if tag = "!!float" then floatOfInt? n else none
    | _ => none

/-- The value of a text that states `tag`; none when it does not have that type. Types that are not
of the language do not change a text. -/
def read? (tag : Option String) (isPlain : Bool) (text : String) : Option Scalar :=
  match tag with
  | none => some (if isPlain && text != mergeKey then ofPlain text else str text)
  | some tag =>
    if checkedTags.contains tag then checked? tag text
    else if tag = binaryTag then
      (Text.Base64.decode? text).map fun bytes =>
        str (String.ofList ((Rune.decode bytes).map Rune.char))
    else some (str text)

end Scalar

end Octal.Yaml
