/-!
# Places in a document

Documents are read character by character. A cursor is a place in one, with the line and column that
keys and indentation are judged by, and all that comes after it. It also knows how far readers have
looked, since a fault that nobody looks at does not count.
-/

namespace Octal.Yaml

/-- Blanks inside a line. -/
def isSpace (c : Char) : Bool := c == ' ' || c == '\t'

/-- The ends of lines. -/
def isBreak (c : Char) : Bool :=
  c == '\n' || c == '\r' || c.toNat == 0x85 || c.toNat == 0x2028 || c.toNat == 0x2029

def isSpaceOrBreak (c : Char) : Bool := isSpace c || isBreak c

/-- Whether a word ends here. -/
def atBoundary : List Char → Bool
  | [] => true
  | c :: _ => isSpaceOrBreak c

/-- The characters of names. -/
def isNameChar (c : Char) : Bool :=
  ('0' ≤ c && c ≤ '9') || ('a' ≤ c && c ≤ 'z') || ('A' ≤ c && c ≤ 'Z') || c == '_' || c == '-'

structure Cursor where
  rest : List Char
  /-- The length of `rest`. -/
  left : Nat
  /-- How many characters come before. -/
  index : Nat
  /-- Lines count from 1. -/
  line : Nat
  /-- Columns count from 0. -/
  column : Nat
  /-- Whether only blanks come before on this line. -/
  atMargin : Bool
  /-- How many characters of the document have been looked at. -/
  seen : Nat
deriving DecidableEq, Repr

namespace Cursor

def start (text : List Char) : Cursor := ⟨text, text.length, 0, 1, 0, true, 0⟩

def next? (c : Cursor) : Option Char := c.rest.head?

/-- Whether the next character satisfies `p`. -/
def sees (c : Cursor) (p : Char → Bool) : Bool := c.rest.head?.any p

/-- Look at the next `n` characters. -/
def look (c : Cursor) (n : Nat) : Cursor := { c with seen := max c.seen (c.index + n) }

/-- Move over `n` characters of the line. -/
def advance (c : Cursor) (n : Nat) : Cursor :=
  { c with
    rest := c.rest.drop n
    left := c.left - n
    index := c.index + n
    column := c.column + n
    atMargin := c.atMargin && (c.rest.take n).all isSpace }

/-- Move over all characters up to the first that fails `p`. They are on the line. -/
def skipWhile (c : Cursor) (p : Char → Bool) : Cursor := c.advance (c.rest.takeWhile p).length

def skipSpaces (c : Cursor) : Cursor := c.skipWhile isSpace

/-- Move to the end of the line. -/
def skipLine (c : Cursor) : Cursor := c.skipWhile (!isBreak ·)

/-- The length of the line end here, which is one unit even when it is written with two
characters. -/
def breakLength : List Char → Nat
  | '\r' :: '\n' :: _ => 2
  | _ => 1

/-- Move over a line end. -/
def nextLine (c : Cursor) : Cursor :=
  let n := breakLength c.rest
  ⟨c.rest.drop n, c.left - n, c.index + n, c.line + 1, 0, true, c.seen⟩

/-- What a line end counts as in a text: most are newlines, and two stand for themselves. -/
def breakText (c : Cursor) : List Char :=
  match c.rest with
  | b :: _ => if b.toNat == 0x2028 || b.toNat == 0x2029 then [b] else ['\n']
  | [] => []

/-- Whether the line is `mark`, alone or before a blank. -/
def isAtMark (c : Cursor) (mark : String) : Bool :=
  c.column == 0 && mark.toList.isPrefixOf c.rest && atBoundary (c.rest.drop 3)

/-- The mark before a document. -/
def isAtStart (c : Cursor) : Bool := c.isAtMark "---"

/-- The mark after a document. -/
def isAtEnd (c : Cursor) : Bool := c.isAtMark "..."

def isAtAnyMark (c : Cursor) : Bool := c.isAtStart || c.isAtEnd

/-- Move over blanks and line ends as long as there are `n` characters of them. -/
def skipIdle : Nat → Cursor → Cursor
  | 0, c => c
  | n + 1, c =>
    if c.sees isBreak then
      skipIdle (n + 1 - breakLength c.rest) c.nextLine
    else skipIdle n (c.advance 1)
termination_by n => n
decreasing_by
  all_goals simp_wf
  unfold breakLength
  split <;> omega

/-- How far ahead comments are looked for. -/
def commentReach : Nat := 512

/-- Look for a comment after characters that satisfy `p`. The result is how many there are, if a
comment follows, and the cursor. -/
def lookForComment (c : Cursor) (p : Char → Bool) : Option Nat × Cursor :=
  let gap := (c.rest.takeWhile p).length
  let found := gap < commentReach && (c.rest.drop gap).head? == some '#'
  (if found then some gap else none, c.look (min (gap + 1) commentReach))

/-- Move to the end of a line and look at it. -/
def endLine (c : Cursor) : Cursor := c.skipLine.look 1

/-- Move over the comment here, and over those that only blanks and line ends separate from it. The
cursor is left at the end of the last one. -/
def skipComments : Nat → Cursor → Cursor
  | 0, c => c
  | fuel + 1, c =>
    match c.endLine.lookForComment isSpaceOrBreak with
    | (some gap, c) => skipComments fuel (skipIdle gap c)
    | (none, c) => c

/-- Move over a comment that ends the line. -/
def skipRemark (c : Cursor) : Cursor :=
  if c.atMargin then c
  else match c.lookForComment isSpace with
    | (some _, c) => c.endLine
    | (none, c) => c

end Cursor

end Octal.Yaml
