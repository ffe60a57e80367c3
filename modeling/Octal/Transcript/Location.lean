import Octal.Text.Digit
import Octal.Text.Quoted

/-!
# Places of databases

A database is named by a path or by an address `file:…`, and parameters can follow a question mark.
The name `:memory:` stands for a database without a file.
-/

namespace Octal

/-- Where a database is kept. -/
inductive Location where
  | memory
  | file (path : String)
deriving DecidableEq, Repr

namespace Location

open Text

/-- Why a name names no database. -/
inductive Fault where
  /-- A percent sign without two hexadecimal digits, with what follows it. -/
  | badEscape (text : String)
  | semicolon
  | foreignHost
deriving DecidableEq, Repr

def Fault.message : Fault → String
  | badEscape text => "invalid URL escape " ++ quote text
  | semicolon => "invalid semicolon separator in query"
  | foreignHost => "SQL logic error: out of memory (1)"

/-- The first percent sign of a parameter that does not lead two hexadecimal digits. -/
def badEscape? : List Char → Option Fault
  | [] => none
  | '%' :: rest =>
    if 2 ≤ rest.length && (rest.take 2).all fun c => (digitIn? 16 c).isSome then badEscape? rest
    else some (.badEscape (String.ofList ('%' :: rest.take 2)))
  | _ :: rest => badEscape? rest

/-- What is wrong with parameters. A semicolon counts more than an escape, and the first escape more
than later ones. -/
def queryFault? (query : String) : Option Fault :=
  let parameters := query.splitOn "&"
  if parameters.any (·.contains ';') then some .semicolon
  else (parameters.flatMap (·.splitOn "=")).findSome? fun part => badEscape? part.toList

/-- Bytes written with a percent sign, resolved. -/
def unescape : List Char → List UInt8
  | [] => []
  | '%' :: a :: b :: rest =>
    match digitIn? 16 a, digitIn? 16 b with
    | some x, some y => UInt8.ofNat (x * 16 + y) :: unescape rest
    | _, _ => "%".toUTF8.toList ++ unescape (a :: b :: rest)
  | c :: rest => c.toString.toUTF8.toList ++ unescape rest

/-- An address without its host, which has to be empty or this one. -/
def dropHost : List Char → Except Fault (List Char)
  | '/' :: '/' :: rest =>
    let host := String.ofList (rest.takeWhile (· != '/'))
    if host = "" || host = "localhost" then .ok (rest.dropWhile (· != '/')) else .error .foreignHost
  | rest => .ok rest

/-- The path of an address, after `file:`. -/
def addressPath (address : List Char) : Except Fault String :=
  (dropHost address).map fun cs =>
    let bytes := unescape (cs.takeWhile fun c => c != '?' && c != '#')
    (String.fromUTF8? (ByteArray.mk bytes.toArray)).getD ""

/-- The name of a database that has no file. -/
def unnamed : String := ":memory:"

/-- Where a path leads. A null character ends it. -/
def ofPath (path : String) : Location :=
  let path := String.ofList (path.toList.takeWhile (· != '\x00'))
  if path = unnamed || path = "" then memory else file path

/-- Where the database called `name` is. The parameters have to be well-formed. -/
def ofName (name : String) : Except Fault Location :=
  let path := String.ofList (name.toList.takeWhile (· != '?'))
  let query := String.ofList ((name.toList.dropWhile (· != '?')).drop 1)
  match if path = "" then none else queryFault? query with
  | some fault => .error fault
  | none =>
    if name.startsWith "file:" then
      (addressPath (name.toList.drop 5)).map fun path =>
        if (query.splitOn "&").contains "mode=memory" then memory else ofPath path
    else .ok (ofPath (if path = "" then name else path))

/-- The file of the database called `name`, if it has one. -/
def path? (name : String) : Option String :=
  match ofName name with
  | .ok (file path) => some path
  | _ => none

end Location

end Octal
