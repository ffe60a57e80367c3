import Octal.Transcript.Database

/-!
# Database files

A database as the bytes of a file: a mark, then every field as its length in decimal, a colon, its
bytes and a comma. A file that is not written this way is no database.
-/

namespace Octal

namespace Archive

def mark : Bytes := Bytes.ofString "octal transcript\n"

def colon : UInt8 := 0x3A

def comma : UInt8 := 0x2C

def encodeField (field : Bytes) : Bytes :=
  Bytes.ofString field.length.repr ++ colon :: field ++ [comma]

/-- Where the reading of fields stands. -/
inductive Reading where
  /-- In the length of a field. -/
  | length (n : Nat)
  /-- `left + 1` bytes of a field are to come, the bytes so far being held last one first. -/
  | bytes (left : Nat) (field : Bytes)
  /-- At the comma after a field. -/
  | separator (field : Bytes)
  | failed
deriving DecidableEq, Repr

def Reading.step (fields : List Bytes) : Reading → UInt8 → List Bytes × Reading
  | length n, b =>
    if 0x30 ≤ b && b ≤ 0x39 then (fields, length (n * 10 + (b.toNat - 0x30)))
    else if b = colon then
      match n with
      | 0 => (fields, separator [])
      | left + 1 => (fields, bytes left [])
    else (fields, failed)
  | bytes 0 field, b => (fields, separator (b :: field))
  | bytes (left + 1) field, b => (fields, bytes left (b :: field))
  | separator field, b =>
    if b = comma then (field.reverse :: fields, length 0) else (fields, failed)
  | failed, _ => (fields, failed)

/-- The fields that `text` spells. -/
def decodeFields (text : Bytes) : Option (List Bytes) :=
  let start : List Bytes × Reading := ([], .length 0)
  match text.foldl (fun s b => s.2.step s.1 b) start with
  | (fields, .length 0) => some fields.reverse
  | _ => none

def string? (field : Bytes) : Option String := String.fromUTF8? (ByteArray.mk field.toArray)

def nat? (field : Bytes) : Option Nat := (string? field).bind String.toNat?

def encodeRow (r : Row) : List Bytes :=
  [Bytes.ofString r.seq.repr, r.input, Bytes.ofString r.result, Bytes.ofString r.kind,
    Bytes.ofString r.message, Bytes.ofString r.stamp]

def decodeRows : List Bytes → Option (List Row)
  | [] => some []
  | seq :: input :: result :: kind :: message :: stamp :: rest => do
    let row : Row := ⟨← nat? seq, input, ← string? result, ← string? kind, ← string? message,
      ← string? stamp⟩
    return row :: (← decodeRows rest)
  | _ => none

end Archive

namespace Database

open Archive

def encode (db : Database) : Bytes :=
  let fields := [Bytes.ofString db.version, Bytes.ofString db.lastSeq.repr] ++
    db.rows.flatMap encodeRow
  mark ++ fields.flatMap encodeField

/-- The database in a file with contents `text`, if it is one. -/
def decode? (text : Bytes) : Option Database :=
  if mark.isPrefixOf text then
    match decodeFields (text.drop mark.length) with
    | some (version :: lastSeq :: rows) => do
      return ⟨← string? version, ← decodeRows rows, ← nat? lastSeq⟩
    | _ => none
  else none

end Database

end Octal
