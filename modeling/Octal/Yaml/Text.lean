import Octal.Text.Digit
import Octal.Yaml.Cursor

/-!
# Texts in documents

Readers for plain text, text between quotes and block text. Each begins at a cursor and gives the
text and the cursor after it, or the number of the line where the text goes wrong.

Plain and quoted text can go on over several lines. A single line end between two words counts as a
blank, and each further one as itself.
-/

namespace Octal.Yaml

/-! ### Between words -/

/-- Blanks and line ends between two words. -/
structure Gap where
  /-- The blanks of a gap inside a line. -/
  spaces : List Char
  /-- The first line end. -/
  first : List Char
  /-- The line ends after it. -/
  more : List Char
  isBroken : Bool
deriving DecidableEq, Repr

namespace Gap

def none : Gap := ⟨[], [], [], false⟩

/-- A line end that joins the lines. -/
def joined : Gap := ⟨[], [], [], true⟩

def space (g : Gap) (c : Char) : Gap :=
  if g.isBroken then g else { g with spaces := g.spaces ++ [c] }

def lineEnd (g : Gap) (text : List Char) : Gap :=
  if g.isBroken then { g with more := g.more ++ text } else ⟨[], text, [], true⟩

/-- What the gap counts as. -/
def text (g : Gap) : List Char :=
  if !g.isBroken then g.spaces
  else if g.first.head? == some '\n' then (if g.more.isEmpty then [' '] else g.more)
  else g.first ++ g.more

end Gap

/-- Read a gap to its end. No tab may stand left of the column `margin` on a new line. -/
def readGap (margin : Nat) : Nat → Cursor → Gap → Except Nat (Gap × Cursor)
  | 0, c, g => .ok (g, c)
  | fuel + 1, c, g =>
    let c := c.look 1
    match c.next? with
    | none => .ok (g, c)
    | some ch =>
      if isSpace ch then
        if g.isBroken && ch == '\t' && c.column < margin then .error c.line
        else readGap margin fuel (c.advance 1) (g.space ch)
      else if isBreak ch then readGap margin fuel c.nextLine (g.lineEnd c.breakText)
      else .ok (g, c)

/-! ### Plain text -/

/-- Whether `c` ends a plain text inside a flow collection. -/
def isFlowSign (c : Char) : Bool :=
  c == ',' || c == '?' || c == '[' || c == ']' || c == '\x7b' || c == '\x7d'

/-- The word in front: all up to a blank, a colon before a blank or a sign that ends the text. -/
def plainWord (inFlow : Bool) : List Char → List Char
  | [] => []
  | c :: rest =>
    if isSpaceOrBreak c || (c == ':' && atBoundary rest) || (inFlow && isFlowSign c) then []
    else c :: plainWord inFlow rest

/-- A plain text as it is read: what there is so far, and the gap after it. -/
structure Passage where
  /-- The words and gaps, last one first. -/
  parts : List (List Char)
  gap : Gap
  cursor : Cursor

def Passage.text (p : Passage) : List Char := p.parts.reverse.flatten

/-- Read a plain text whose lines begin at the column `margin` or further right. -/
def readPlain (inFlow : Bool) (margin : Nat) : Nat → Passage → Except Nat Passage
  | 0, p => .ok p
  | fuel + 1, p =>
    let c := p.cursor.look 4
    if c.isAtAnyMark || c.sees (· == '#') then .ok { p with cursor := c }
    else
      let word := plainWord inFlow c.rest
      let c := if word.isEmpty then c else (c.advance word.length).look 2
      let p : Passage :=
        if word.isEmpty then { p with cursor := c }
        else ⟨word :: p.gap.text :: p.parts, .none, c⟩
      if !c.sees isSpaceOrBreak then .ok p
      else do
        let (g, c) ← readGap margin c.left.succ c p.gap
        let p : Passage := ⟨p.parts, g, c⟩
        if !inFlow && c.column < margin then return p
        readPlain inFlow margin fuel p

/-! ### Quoted text -/

/-- The character that a letter after a backslash stands for. -/
def namedEscape? : Char → Option Char
  | '0' => some (Char.ofNat 0x00)
  | 'a' => some (Char.ofNat 0x07)
  | 'b' => some (Char.ofNat 0x08)
  | 't' | '\t' => some '\t'
  | 'n' => some '\n'
  | 'v' => some (Char.ofNat 0x0B)
  | 'f' => some (Char.ofNat 0x0C)
  | 'r' => some '\r'
  | 'e' => some (Char.ofNat 0x1B)
  | ' ' => some ' '
  | '"' => some '"'
  | '\'' => some '\''
  | '\\' => some '\\'
  | 'N' => some (Char.ofNat 0x85)
  | '_' => some (Char.ofNat 0xA0)
  | 'L' => some (Char.ofNat 0x2028)
  | 'P' => some (Char.ofNat 0x2029)
  | _ => none

/-- The character whose code the first `digits` characters give in hexadecimal. -/
def coded? (digits : Nat) (cs : List Char) : Option Char := do
  let ds := cs.take digits
  if ds.length < digits then none
  let n ← ds.foldlM (fun n d => (Text.digitIn? 16 d).map (n * 16 + ·)) 0
  if n.isValidChar then some (Char.ofNat n) else none

/-- What is written after a backslash: the character and the length of its escape. -/
def escape? : List Char → Option (Char × Nat)
  | [] => none
  | 'x' :: rest => (coded? 2 rest).map (·, 3)
  | 'u' :: rest => (coded? 4 rest).map (·, 5)
  | 'U' :: rest => (coded? 8 rest).map (·, 9)
  | c :: _ => (namedEscape? c).map (·, 1)

/-- A word between quotes: its text and its length, and whether a backslash before a line end
follows. -/
structure QuotedWord where
  text : List Char
  length : Nat
  joins : Bool

namespace QuotedWord

def nothing : QuotedWord := ⟨[], 0, false⟩

def cons (c : Char) (length : Nat) (w : QuotedWord) : QuotedWord :=
  ⟨c :: w.text, length + w.length, w.joins⟩

/-- A word between single quotes, in which a quote is written twice. -/
def single : List Char → QuotedWord
  | [] => nothing
  | '\'' :: '\'' :: rest => (single rest).cons '\'' 2
  | c :: rest => if c == '\'' || isSpaceOrBreak c then nothing else (single rest).cons c 1

/-- A word between double quotes, in which a backslash begins an escape. -/
def double? : Nat → List Char → Option QuotedWord
  | 0, _ | _, [] => some nothing
  | fuel + 1, '\\' :: rest =>
    if rest.head?.any isBreak then some ⟨[], 0, true⟩
    else do
      let (c, n) ← escape? rest
      return (← double? fuel (rest.drop n)).cons c (n + 1)
  | fuel + 1, c :: rest =>
    if c == '"' || isSpaceOrBreak c then some nothing
    else (double? fuel rest).map (·.cons c 1)

/-- The word at a cursor. -/
def read? (quote : Char) (c : Cursor) : Option QuotedWord :=
  if quote == '\'' then some (single c.rest) else double? c.left c.rest

end QuotedWord

/-- Read a text to its closing `quote`, given its words and gaps so far, last one first. It may not
run into a mark between documents. -/
def readQuoted (quote : Char) : Nat → Cursor → List (List Char) → Except Nat (List Char × Cursor)
  | 0, c, _ => .error c.line
  | fuel + 1, c, parts =>
    let c := c.look 4
    if c.isAtAnyMark || c.rest.isEmpty then .error c.line
    else
      match QuotedWord.read? quote c with
      | none => .error c.line
      | some w =>
        let c := if w.length = 0 then c else (c.advance w.length).look 2
        let (g, c) :=
          if w.joins then (Gap.joined, ((c.look 3).advance 1).nextLine) else (Gap.none, c)
        let c := c.look 1
        if c.sees (· == quote) then .ok ((w.text :: parts).reverse.flatten, c.advance 1)
        else do
          let (g, c) ← readGap 0 c.left.succ c g
          readQuoted quote fuel c (g.text :: w.text :: parts)

/-! ### Block text -/

/-- What becomes of the line ends after a block text. -/
inductive Chomp where
  | one
  | all
  | nothing
deriving DecidableEq, Repr

/-- The head of a block text: how it ends, and its indentation if that is given. -/
structure BlockHead where
  chomp : Chomp
  indent : Option Nat

namespace BlockHead

def chomp? : Char → Option Chomp
  | '+' => some .all
  | '-' => some .nothing
  | _ => none

/-- A sign and a digit in either order, and how many characters they take. A zero is refused. -/
def read? (cs : List Char) : Option (BlockHead × Nat) :=
  let digit? := fun (c : Option Char) => c.bind (Text.digitIn? 10)
  let sign? := fun (c : Option Char) => c.bind chomp?
  match sign? cs.head?, digit? cs.head? with
  | some chomp, _ =>
    match digit? (cs.drop 1).head? with
    | some 0 => none
    | some n => some (⟨chomp, some n⟩, 2)
    | none => some (⟨chomp, none⟩, 1)
  | none, some 0 => none
  | none, some n =>
    match sign? (cs.drop 1).head? with
    | some chomp => some (⟨chomp, some n⟩, 2)
    | none => some (⟨.one, some n⟩, 1)
  | none, none => some (⟨.one, none⟩, 0)

end BlockHead

/-- Move over indentation, up to the column `indent` if that is known. -/
def skipIndent (indent : Option Nat) (c : Cursor) : Cursor :=
  let spaces := (c.rest.takeWhile (· == ' ')).length
  c.advance (indent.elim spaces fun n => min spaces (n - c.column))

/-- Read empty lines and the indentation after them. The result has the line ends and the greatest
column reached. -/
def readEmptyLines (indent : Option Nat) :
    Nat → Cursor → List Char → Nat → Except Nat (List Char × Nat × Cursor)
  | 0, c, breaks, widest => .ok (breaks, widest, c)
  | fuel + 1, c, breaks, widest =>
    let c := (skipIndent indent c).look 1
    let widest := max widest c.column
    if c.sees (· == '\t') && indent.all (c.column < ·) then .error c.line
    else if c.sees isBreak then
      readEmptyLines indent fuel c.nextLine (breaks ++ c.breakText) widest
    else .ok (breaks, widest, c)

/-- A block text as it is read. -/
structure BlockText where
  /-- The lines before and what joins them, last one first. -/
  parts : List (List Char)
  /-- The end of the last line. -/
  lineEnd : List Char
  /-- The ends of the empty lines after it. -/
  emptyLines : List Char
  /-- Whether the last line begins with a blank. -/
  isIndented : Bool
  cursor : Cursor

namespace BlockText

/-- What joins the text to the present line, which begins with a blank or not. In a folded text a
single line end between lines that begin with words counts as a blank. -/
def joint (b : BlockText) (isFolded startsBlank : Bool) : List Char :=
  if isFolded && !b.isIndented && !startsBlank && b.lineEnd.head? == some '\n' then
    if b.emptyLines.isEmpty then [' '] else b.emptyLines
  else b.lineEnd ++ b.emptyLines

/-- Read all lines that begin at the column `indent`. -/
def readLines (isFolded : Bool) (indent : Nat) : Nat → BlockText → Except Nat BlockText
  | 0, b => .ok b
  | fuel + 1, b =>
    if b.cursor.column != indent || b.cursor.rest.isEmpty then .ok b
    else do
      let startsBlank := b.cursor.sees isSpace
      let line := b.cursor.rest.takeWhile (!isBreak ·)
      let c := (b.cursor.advance line.length).look 2
      let after := if c.sees isBreak then c.nextLine else c
      let (emptyLines, _, cursor) ← readEmptyLines (some indent) after.left.succ after [] 0
      readLines isFolded indent fuel
        ⟨line :: b.joint isFolded startsBlank :: b.parts, c.breakText, emptyLines, startsBlank,
          cursor⟩

def finish (b : BlockText) (chomp : Chomp) : List Char :=
  let tail := match chomp with
    | .one => b.lineEnd
    | .all => b.lineEnd ++ b.emptyLines
    | .nothing => []
  (tail :: b.parts).reverse.flatten

end BlockText

/-- Read a block text after its indicator, in a collection indented by `outer` columns if there is
one. -/
def readBlock (isFolded : Bool) (outer : Option Nat) (c : Cursor) :
    Except Nat (List Char × Cursor) := do
  match BlockHead.read? c.rest with
  | none => throw c.line
  | some (head, length) =>
    let c := (c.advance length).skipSpaces.look 1
    let c := if c.sees (· == '#') then c.endLine else c
    if !(c.rest.isEmpty || c.sees isBreak) then throw c.line
    let c := if c.sees isBreak then c.nextLine else c
    let given := head.indent.map (outer.getD 0 + ·)
    let (emptyLines, widest, c) ← readEmptyLines given c.left.succ c [] 0
    let indent := given.getD (max widest (max (outer.elim 0 (· + 1)) 1))
    let b ← BlockText.readLines isFolded indent c.left ⟨[], [], emptyLines, false, c⟩
    return (b.finish head.chomp, b.cursor)

end Octal.Yaml
