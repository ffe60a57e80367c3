import Octal.Source
import Octal.Text.Blank
import Octal.Text.Digit

/-!
# Scanning

A source is scanned rune by rune. At any moment the scanner holds one piece: the token, stray
character or blank that the last runes spell so far. A rune either extends the piece or ends it and
begins the next one, so a piece takes as many runes as it can.

A minus is the sign of a numeral when a digit follows directly and the token before it does not end
an operand; everywhere else it is an operator.
-/

namespace Octal

/-- What becomes of a character that belongs to no token. -/
inductive Lexing where
  | strict
  | lenient
deriving DecidableEq, Repr

/-- One result of scanning. -/
inductive Item where
  | token (t : Token)
  | stray (pos : Nat) (c : Char)
  | failed (cause : Error)
deriving DecidableEq, Repr

namespace Scan

open Text

def isWordStart (c : Char) : Bool :=
  c == '_' || ('a' ≤ c && c ≤ 'z') || ('A' ≤ c && c ≤ 'Z')

def isWordChar (c : Char) : Bool := isWordStart c || isDigit c

/-- The characters that take a directly following `=`. -/
def isRelation (c : Char) : Bool := c == '=' || c == '<' || c == '>' || c == '!'

/-- The kind of a character that is a token by itself. -/
def punctuation? : Char → Option Kind
  | '+' => some .plus
  | '-' => some .minus
  | '*' => some .times
  | '/' => some .divide
  | '%' => some .modulo
  | '^' => some .power
  | '(' => some .openParen
  | ')' => some .closeParen
  | ',' => some .comma
  | ';' => some .semicolon
  | _ => none

/-- What the runes since the end of the last piece spell. Texts are held last character first. -/
inductive Piece where
  | blank
  | stray (c : Char)
  | digits (text : List Char)
  | word (text : List Char)
  /-- A minus that a digit would turn into a sign. -/
  | sign
  /-- A character that an equals sign would extend. -/
  | relation (c : Char)
  | symbol (kind : Kind) (text : String)
deriving DecidableEq, Repr

namespace Piece

/-- The piece that begins with `c`. All decimal digits belong to numerals, so that a wrong digit is
reported as one. -/
def begin (afterOperand : Bool) (c : Char) : Piece :=
  if Text.isBlank c then blank
  else if isDigit c then digits [c]
  else if c = '-' && !afterOperand then sign
  else if isWordStart c then word [c]
  else if isRelation c then relation c
  else match punctuation? c with
    | some kind => symbol kind (String.singleton c)
    | none => stray c

/-- The piece together with a directly following `c`, if that is one piece. -/
def extend? : Piece → Char → Option Piece
  | digits text, c => if isDigit c then some (digits (c :: text)) else none
  | word text, c => if isWordChar c then some (word (c :: text)) else none
  | sign, c => if isDigit c then some (digits [c, '-']) else none
  | relation r, c => if c = '=' then some (symbol .compare (String.ofList [r, c])) else none
  | _, _ => none

/-- The lexeme that a piece is when nothing extends it. -/
def lexeme? : Piece → Option Lexeme
  | blank | stray _ => none
  | digits text => some ⟨.number, String.ofList text.reverse⟩
  | word text =>
    let word := String.ofList text.reverse
    some ⟨Kind.ofWord word, word⟩
  | sign => some ⟨.minus, "-"⟩
  | relation r =>
    if r = '!' then none
    else some ⟨if r = '=' then .assign else .compare, String.singleton r⟩
  | symbol kind text => some ⟨kind, text⟩

/-- The character of a piece that is no token. -/
def stray? : Piece → Option Char
  | stray c => some c
  | relation r => if r = '!' then some r else none
  | _ => none

/-- The result of a piece that starts at `pos` and that nothing extends. A character that is no token
is reported or skipped. -/
def items (p : Piece) (lexing : Lexing) (pos : Nat) : List Item :=
  match p.lexeme?, p.stray? with
  | some l, _ => [.token ⟨l, pos⟩]
  | none, some c =>
    match lexing with
    | .strict => [.stray pos c]
    | .lenient => []
  | none, none => []

/-- Whether a piece could still grow when the source is cut off. Such a piece is given up. -/
def isOpen : Piece → Bool
  | digits _ | word _ => true
  | _ => false

end Piece

/-- The state of a scan between two runes. -/
structure State where
  /-- The offset of the next rune. -/
  pos : Nat
  /-- Where the piece starts. -/
  start : Nat
  piece : Piece
  /-- Whether the last token before the piece ends an operand. -/
  afterOperand : Bool
deriving DecidableEq, Repr

namespace State

def initial : State := ⟨0, 0, .blank, false⟩

/-- Whether the last token up to the end of the piece ends an operand. -/
def endsOperand (s : State) : Bool :=
  match s.piece.lexeme? with
  | some l => l.kind.endsOperand
  | none => s.afterOperand

/-- The results of the piece, when it is complete. -/
def items (s : State) (lexing : Lexing) : List Item := s.piece.items lexing s.start

/-- The state after `r`, which ends the piece. -/
def restart (s : State) (r : Rune) : State :=
  ⟨s.pos + r.width, s.pos, .begin s.endsOperand r.char, s.endsOperand⟩

/-- The results of the piece and of the end of the source. -/
def finish (s : State) (lexing : Lexing) : Ending → List Item
  | .complete => s.items lexing ++ [.token ⟨⟨.eof, ""⟩, s.pos⟩]
  | .cutOff cause => (if s.piece.isOpen then [] else s.items lexing) ++ [.failed cause]

/-- The results of the rest of a source, `s` being the state before it. -/
def run (s : State) (lexing : Lexing) (ending : Ending) : List Rune → List Item
  | [] => s.finish lexing ending
  | r :: rest =>
    match s.piece.extend? r.char with
    | some piece => run { s with pos := s.pos + r.width, piece } lexing ending rest
    | none => s.items lexing ++ run (s.restart r) lexing ending rest

end State

end Scan

/-- The items of a source, in order. The last one is the end of the input or the cause that cut the
source off. -/
def Source.scan (lexing : Lexing) (src : Source) : List Item :=
  Scan.State.initial.run lexing src.ending (Rune.decode src.text)

end Octal
