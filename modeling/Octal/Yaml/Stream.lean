import Octal.Yaml.Property
import Octal.Yaml.Text

/-!
# Documents as streams of tokens

A key is known to be one only at the colon after it, so tokens wait in a queue, into which the
beginning of a key can still be put. The first of them is given out when two more follow it and it
can no longer turn out to begin a key. Whatever is wrong further on in a document does not matter
to a reader who stops before.
-/

namespace Octal.Yaml

/-- A place where a key may have begun. -/
structure Candidate where
  isOpen : Bool
  /-- Whether nothing but a key can begin at this place. -/
  isRequired : Bool
  /-- The number of the token there. -/
  number : Nat
  cursor : Cursor
deriving Repr

/-- How many characters a key can have before its colon. -/
def keyReach : Nat := 1024

/-- Whether the colon of the key can still come: on its line, and not too far away. -/
def Candidate.isInReach (k : Candidate) (c : Cursor) : Bool :=
  k.cursor.line == c.line && c.index ≤ k.cursor.index + keyReach

structure Stream where
  cursor : Cursor
  /-- How many characters can be looked at, when the text goes on with something unreadable. -/
  reach : Option Nat
  /-- As long as no more characters than this have been looked at, every line loses its first one. -/
  shifted : Nat
  /-- The columns of the open block collections, innermost first. -/
  indents : List Nat
  /-- One candidate for every open flow collection, innermost first, and one for the block. -/
  candidates : List Candidate
  /-- The tokens that may begin a key, by their numbers, and the depth of their candidates. -/
  awaited : List (Nat × Nat)
  /-- Whether a key can begin at the cursor. -/
  allowsKey : Bool
  /-- The tokens that are not given out yet. -/
  queue : List Token
  /-- How many tokens were given out. -/
  given : Nat
deriving Repr

namespace Stream

def noCandidate (number : Nat) (c : Cursor) : Candidate := ⟨false, false, number, c⟩

/-! ### Readable text -/

/-- The characters that a document may have. -/
def isAllowed (c : Char) : Bool :=
  let n := c.toNat
  n == 0x9 || n == 0xA || n == 0xD || (0x20 ≤ n && n ≤ 0x7E) || n == 0x85 ||
    (0xA0 ≤ n && n ≤ 0xFFFD) || 0x10000 ≤ n

/-- The number of bytes that are read at once. -/
def blockSize : Nat := 512

/-- Divide a text into blocks, where `room` bytes are left in the present one. -/
def blocks (room : Nat) : List Char → List (List Char)
  | [] => [[]]
  | c :: rest =>
    let size := c.utf8Size
    let fits := size ≤ room
    match blocks (if fits then room - size else blockSize - size) rest with
    | [] => [[c]]
    | block :: more => if fits then (c :: block) :: more else [] :: (c :: block) :: more

def isByteOrderMark (c : Char) : Bool := c.toNat == 0xFEFF

/-- The stream of a text. A byte order mark is left out. After it, another one stays in the way: until
something after the first block is looked at, every line loses its first character. -/
def ofText (text : List Char) : Stream :=
  let hasMark := text.head?.any isByteOrderMark
  let text := if hasMark then text.drop 1 else text
  let blocks := blocks (if hasMark then blockSize - 3 else blockSize) text
  let readable := (blocks.takeWhile (·.all isAllowed)).flatten
  let cursor := Cursor.start readable
  { cursor
    reach := if blocks.all (·.all isAllowed) then none else some readable.length
    shifted := if text.head?.any isByteOrderMark then (blocks.head?.elim 0 List.length) else 0
    indents := []
    candidates := [noCandidate 0 cursor]
    awaited := []
    allowsKey := true
    queue := []
    given := 0 }

/-! ### Depth -/

/-- How many flow collections are open. -/
def flowDepth (s : Stream) : Nat := s.candidates.length - 1

def inFlow (s : Stream) : Bool :=
  match s.candidates with
  | _ :: _ :: _ => true
  | _ => false

/-- How deep collections can be nested. -/
def depthLimit : Nat := 10000

/-- Whether the innermost block collection begins left of `column`. -/
def isDeeper (s : Stream) (column : Nat) : Bool := s.indents.head?.all (· < column)

/-- The first column for what a block collection contains. -/
def margin (s : Stream) : Nat := s.indents.head?.elim 0 (· + 1)

/-! ### The queue -/

/-- The number of the next token to be queued. -/
def nextNumber (s : Stream) : Nat := s.given + s.queue.length

/-- Queue a token that begins on line `line`. -/
def push (s : Stream) (line : Nat) (form : Token.Form) : Stream :=
  { s with queue := s.queue ++ [⟨line, form⟩] }

/-- Queue a token in front of number `number`; at the end when that one is given out already. -/
def insert (s : Stream) (number : Nat) (token : Token) : Stream :=
  if number < s.given then { s with queue := s.queue ++ [token] }
  else { s with queue := s.queue.insertIdx (number - s.given) token }

/-- End the block collections that begin right of `column`, or all of them. -/
def closeBlocks (s : Stream) (line : Nat) (column : Option Nat) : Stream :=
  if s.inFlow then s
  else
    let closed := s.indents.takeWhile fun n => column.all (· < n)
    { s with
      indents := s.indents.drop closed.length
      queue := s.queue ++ closed.map fun _ => ⟨line, .blockEnd⟩ }

/-- Begin a block collection at `column`, unless it is the one that is open. Its token comes in front
of number `number`, or at the end. -/
def openBlock (s : Stream) (column : Nat) (number : Option Nat) (token : Token) :
    Except Nat Stream :=
  if s.inFlow || !s.isDeeper column then .ok s
  else
    let s := { s with indents := column :: s.indents }
    if depthLimit < s.indents.length then .error token.line
    else .ok (s.insert (number.getD s.nextNumber) token)

/-! ### Candidates for keys -/

/-- Replace the innermost candidate. -/
def setCandidate (s : Stream) (k : Candidate) : Stream :=
  { s with candidates := k :: s.candidates.tail }

def forget (s : Stream) (number : Nat) : Stream :=
  { s with awaited := s.awaited.filter (·.1 != number) }

/-- The innermost candidate turns out to be no key. It is an error when a key is required there. -/
def dropCandidate (s : Stream) : Except Nat Stream :=
  match s.candidates.head? with
  | none => .ok s
  | some k =>
    if !k.isOpen then .ok s
    else if k.isRequired then .error s.cursor.line
    else .ok ((s.setCandidate { k with isOpen := false }).forget k.number)

/-- A key may begin at the cursor. -/
def addCandidate (s : Stream) : Except Nat Stream :=
  if !s.allowsKey then .ok s
  else do
    let number := s.nextNumber
    let isRequired := !s.inFlow && s.indents.head? == some s.cursor.column
    let s ← s.dropCandidate
    let s := s.setCandidate ⟨true, isRequired, number, s.cursor⟩
    return { s with awaited := (number, s.flowDepth) :: s.awaited.filter (·.1 != number) }

/-- Whether candidate `k` is a key if a colon comes now. One that is out of reach is an error when a
key is required. -/
def isLive (s : Stream) (k : Candidate) : Except Nat Bool :=
  if !k.isOpen then .ok false
  else if k.isInReach s.cursor then .ok true
  else if k.isRequired then .error s.cursor.line
  else .ok false

/-- The candidate at the flow depth `depth`. -/
def candidateAt? (s : Stream) (depth : Nat) : Option Candidate :=
  s.candidates[s.flowDepth - depth]?

/-! ### Tokens -/

/-- Move to the next token. In a block, a key can begin on a new line; and before it, only spaces
are indentation. -/
def skipToToken : Nat → Stream → Stream
  | 0, s => s
  | fuel + 1, s =>
    let c := s.cursor.look 1
    let c := if c.column == 0 && c.seen ≤ s.shifted then (c.advance 1).look 1 else c
    let c := (c.skipWhile fun ch => ch == ' ' || ((s.inFlow || !s.allowsKey) && ch == '\t')).look 1
    let c := if c.sees (· == '#') then c.skipComments c.left else c
    if c.sees isBreak then
      let c := c.look 2
      skipToToken fuel { s with cursor := c.nextLine, allowsKey := s.allowsKey || !s.inFlow }
    else { s with cursor := c }

/-- Queue a token of `length` characters. -/
def take (s : Stream) (length : Nat) (form : Token.Form) : Stream :=
  { s.push s.cursor.line form with cursor := s.cursor.advance length }

/-- Queue a token that begins here and ends at `after`. -/
def takeTo (s : Stream) (form : Token.Form) (after : Cursor) : Stream :=
  { s.push s.cursor.line form with cursor := after }

/-- What ends all blocks: a mark between documents, a directive or the end of the text. -/
def leaveBlocks (s : Stream) : Except Nat Stream := do
  let s ← (s.closeBlocks s.cursor.line none).dropCandidate
  return { s with allowsKey := false }

/-- The end of the text, which also ends its last line. -/
def takeEnd (s : Stream) : Except Nat Stream := do
  let c := s.cursor
  let c := if c.column == 0 then c else { c with column := 0, line := c.line + 1 }
  let s ← { s with cursor := c }.leaveBlocks
  return s.push c.line .streamEnd

def takeMark (s : Stream) (form : Token.Form) : Except Nat Stream := do
  return (← s.leaveBlocks).take 3 form

def takeDirective (s : Stream) : Except Nat Stream := do
  let s ← s.leaveBlocks
  let (form, after) ← readDirective (s.cursor.advance 1)
  return s.takeTo form after

/-- An opening bracket, which can begin a key itself. -/
def takeOpening (s : Stream) (form : Token.Form) : Except Nat Stream := do
  let s ← s.addCandidate
  let s := { s with candidates := noCandidate s.nextNumber s.cursor :: s.candidates }
  if depthLimit < s.flowDepth then throw s.cursor.line
  return { s with allowsKey := true }.take 1 form

/-- A closing bracket. -/
def takeClosing (s : Stream) (form : Token.Form) : Except Nat Stream := do
  let s ← s.dropCandidate
  let s := match s.candidates with
    | k :: next :: outer => { s with candidates := next :: outer }.forget k.number
    | _ => s
  return { s with allowsKey := false }.take 1 form

def takeComma (s : Stream) : Except Nat Stream := do
  return { ← s.dropCandidate with allowsKey := true }.take 1 .comma

/-- A dash before an item. -/
def takeItem (s : Stream) : Except Nat Stream := do
  if !s.inFlow && !s.allowsKey then throw s.cursor.line
  let s ← s.openBlock s.cursor.column none ⟨s.cursor.line, .blockSequence⟩
  return { ← s.dropCandidate with allowsKey := true }.take 1 .item

/-- A question mark before a key. -/
def takeKey (s : Stream) : Except Nat Stream := do
  if !s.inFlow && !s.allowsKey then throw s.cursor.line
  let s ← s.openBlock s.cursor.column none ⟨s.cursor.line, .blockMapping⟩
  return { ← s.dropCandidate with allowsKey := !s.inFlow }.take 1 .key

/-- A colon: the candidate is a key, or the key before it is marked as one. -/
def takeValue (s : Stream) : Except Nat Stream := do
  let k := s.candidates.headD (noCandidate 0 s.cursor)
  if ← s.isLive k then
    let s := s.insert k.number ⟨k.cursor.line, .key⟩
    let s ← s.openBlock k.cursor.column (some k.number) ⟨k.cursor.line, .blockMapping⟩
    let s := (s.setCandidate { k with isOpen := false }).forget k.number
    return { s with allowsKey := false }.take 1 .value
  else
    let s := s.setCandidate { k with isOpen := false }
    if !s.inFlow && !s.allowsKey then throw s.cursor.line
    let s ← s.openBlock s.cursor.column none ⟨s.cursor.line, .blockMapping⟩
    return { s with allowsKey := !s.inFlow }.take 1 .value

/-- A token that can begin a key, given what reads it. -/
def takeKeyLike (s : Stream) (read : Cursor → Except Nat (Token.Form × Cursor)) :
    Except Nat Stream := do
  let s ← s.addCandidate
  let (form, after) ← read s.cursor
  return { s with allowsKey := false }.takeTo form after

def takeAnchor (s : Stream) (form : String → Token.Form) : Except Nat Stream :=
  s.takeKeyLike fun c => (readName (c.advance 1)).map fun (name, after) => (form name, after)

def takeQuoted (s : Stream) (quote : Char) : Except Nat Stream :=
  s.takeKeyLike fun c =>
    (readQuoted quote c.left (c.advance 1) []).map fun (text, after) =>
      (.scalar (String.ofList text) false, after)

/-- A block text. A key can begin after it, since it ends with a line. -/
def takeBlock (s : Stream) (isFolded : Bool) : Except Nat Stream := do
  let s ← s.dropCandidate
  let (text, after) ← readBlock isFolded s.indents.head? (s.cursor.advance 1)
  return { s with allowsKey := true }.takeTo (.scalar (String.ofList text) false) after

/-- A plain text. A key can begin after it when it ends with a line. -/
def takePlain (s : Stream) : Except Nat Stream := do
  let s ← s.addCandidate
  let p ← readPlain s.inFlow s.margin s.cursor.left.succ ⟨[], .none, s.cursor⟩
  let s := { s with allowsKey := p.gap.isBroken }
  return s.takeTo (.scalar (String.ofList p.text) true) p.cursor

/-- Whether a plain text can begin with `c` and go on with `rest`. -/
def startsPlain (inFlow : Bool) (c : Char) (rest : List Char) : Bool :=
  if c == '-' then !rest.head?.any isSpace
  else if c == '?' || c == ':' then !inFlow && !atBoundary rest
  else !(isSpaceOrBreak c || isFlowSign c || "#&*!|>'\"%@\x60".toList.contains c)

/-- Queue the token at the cursor, of which `c` is the first character and `rest` what follows. -/
def takeToken (s : Stream) (c : Char) (rest : List Char) : Except Nat Stream :=
  let alone := atBoundary rest
  match c with
  | '[' => s.takeOpening .flowSequence
  | '\x7b' => s.takeOpening .flowMapping
  | ']' => s.takeClosing .flowSequenceEnd
  | '\x7d' => s.takeClosing .flowMappingEnd
  | ',' => s.takeComma
  | '*' => s.takeAnchor .reference
  | '&' => s.takeAnchor .anchor
  | '!' => s.takeKeyLike readTag
  | '\'' | '"' => s.takeQuoted c
  | _ =>
    if c == '-' && alone then s.takeItem
    else if c == '?' && (s.inFlow || alone) then s.takeKey
    else if c == ':' && (s.inFlow || alone) then s.takeValue
    else if c == '|' && !s.inFlow then s.takeBlock false
    else if c == '>' && !s.inFlow then s.takeBlock true
    else if startsPlain s.inFlow c rest then s.takePlain
    else .error s.cursor.line

/-- Move over a comment on the line of the token just queued, unless it is a dash. -/
def skipRemark (s : Stream) : Stream :=
  if s.queue.getLast?.any fun t => t.form = .item then s
  else { s with cursor := s.cursor.skipRemark }

/-- Queue the next token. -/
def fetch (s : Stream) : Except Nat Stream := do
  let line := s.cursor.line
  let s := skipToToken s.cursor.left.succ s
  let s := s.closeBlocks line (some s.cursor.column)
  let s := { s with cursor := s.cursor.look 4 }
  let s ←
    match s.cursor.rest with
    | [] => s.takeEnd
    | c :: rest =>
      if s.cursor.column == 0 && c == '%' then s.takeDirective
      else if s.cursor.isAtStart then s.takeMark .documentStart
      else if s.cursor.isAtEnd then s.takeMark .documentEnd
      else (s.takeToken c rest).map skipRemark
  if s.reach.any (· < s.cursor.seen) then throw s.cursor.line
  return s

/-! ### Giving out tokens -/

/-- How many tokens have to be in the queue before one is given out. -/
def lookahead : Nat := 3

/-- Fetch tokens until the first one is settled. -/
def settle : Nat → Stream → Except Nat Stream
  | 0, s => .ok s
  | fuel + 1, s => do
    let awaited ←
      match s.awaited.lookup s.given with
      | some depth =>
        match s.candidateAt? depth with
        | some k => s.isLive k
        | none => pure false
      | none => pure false
    if lookahead ≤ s.queue.length && !awaited then return s
    settle fuel (← s.fetch)

/-- Settle the first token. -/
def ready (s : Stream) : Except Nat Stream := settle (s.cursor.left + 4) s

/-- Give out the first token. -/
def drop (s : Stream) : Stream := { s with queue := s.queue.tail, given := s.given + 1 }

end Stream

end Octal.Yaml
