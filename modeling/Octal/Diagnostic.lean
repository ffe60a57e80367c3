import Octal.Text.Line

/-!
# Diagnostics

How a failure is shown to the user. A problem with a known position comes with the line it is on, the
lines around it, and a caret under the column.
-/

namespace Octal

/-- A position in a text: line and column, both from 1; columns count runes. -/
structure Place where
  line : Nat
  col : Nat
deriving DecidableEq, Repr

namespace Place

def start : Place := ⟨1, 1⟩

/-- The place after `c`. -/
def next (p : Place) (c : Char) : Place :=
  if c = '\n' then ⟨p.line + 1, 1⟩ else ⟨p.line, p.col + 1⟩

/-- The place `offset` bytes after `p`, where `runes` begin. An offset inside a rune means its end,
and one beyond the last rune the end of the text. -/
def advance (p : Place) (offset : Nat) : List Rune → Place
  | [] => p
  | r :: rest => if offset = 0 then p else advance (p.next r.char) (offset - r.width) rest

end Place

/-- The line and column of a byte offset. -/
def Bytes.placeAt (text : Bytes) (offset : Nat) : Place :=
  Place.start.advance offset (Rune.decode text)

namespace Diagnostic

/-- `n` in decimal, right-aligned in four columns. -/
def number (n : Nat) : String :=
  let digits := n.repr
  String.ofList (List.replicate (4 - digits.length) ' ') ++ digits

/-- One line of a text with its number. -/
def numbered (n : Nat) (line : Bytes) : Bytes :=
  Bytes.ofString (number n ++ " | ") ++ line ++ [newline]

/-- Line `n` of `lines`, counted from 1, if there is one. -/
def context (lines : List Bytes) (n : Nat) : Bytes :=
  match n with
  | 0 => []
  | i + 1 => (lines[i]?.map (numbered n)).getD []

/-- The line of a place with its neighbours and a caret under the column. -/
def snippet (lines : List Bytes) (p : Place) : Bytes :=
  context lines (p.line - 1) ++ context lines p.line ++
    Bytes.ofString ("     | " ++ String.ofList (List.replicate (p.col - 1) ' ') ++ "^\n") ++
    context lines (p.line + 1)

/-- Where a place is, for the heading. A text of one line needs no line number. -/
def heading (lines : List Bytes) (p : Place) : String :=
  if 1 < lines.length then p.line.repr ++ ":" ++ p.col.repr else p.col.repr

/-- A problem at an offset of `src`. -/
def renderAt (src : Bytes) (offset : Nat) (problem : Problem) : Bytes :=
  let lines := src.lines
  let place := src.placeAt offset
  Bytes.ofString ("Error at " ++ heading lines place ++ ": " ++ problem.message ++ "\n\n") ++
    snippet lines place

/-- A failure without a snippet. -/
def plain (message : String) : Bytes := Bytes.ofString ("Error: " ++ message ++ "\n")

/-- A failure in evaluating `src`. -/
def render (src : Bytes) (f : Failure) : Bytes :=
  match f.cause with
  | .malformed (some offset) problem => renderAt src offset problem
  | _ => plain f.message

end Diagnostic

end Octal
