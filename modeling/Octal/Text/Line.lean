import Octal.Source

/-!
# Lines

Lines end at a newline. Reading a source line by line drops a carriage return before the newline and
refuses a line that does not fit the line buffer together with its newline.
-/

namespace Octal

def newline : UInt8 := 0x0A

def carriageReturn : UInt8 := 0x0D

/-- `text` cut at every newline; a text without newlines is one line. -/
def Bytes.lines : Bytes → List Bytes
  | [] => [[]]
  | b :: rest =>
    if b = newline then [] :: lines rest
    else match lines rest with
      | line :: more => (b :: line) :: more
      | [] => [[b]]

/-- `line` without a carriage return at its end. -/
def Bytes.dropReturn (line : Bytes) : Bytes :=
  if line.getLast? = some carriageReturn then line.dropLast else line

/-- `text` cut into lines that each end with a newline, except that the last need not: an empty
rest after the last newline is no line. -/
def Bytes.inputLines (text : Bytes) : List Bytes :=
  let lines := text.lines
  if lines.getLast? = some [] then lines.dropLast else lines

namespace Source

/-- The size of the line buffer: a line has fewer bytes than this. -/
def lineLimit : Nat := 65536

def lineTooLong : Error := .outside "bufio.Scanner: token too long"

/-- The lines of a source up to the first that is too long, and the error that ends them. A source
that is cut off still delivers its last line. -/
def readLines (src : Source) : List Bytes × Option Error :=
  let lines := src.text.inputLines
  let fitting := lines.takeWhile fun line => line.length < lineLimit
  let fault :=
    if fitting.length < lines.length then some lineTooLong
    else match src.ending with
      | .complete => none
      | .cutOff cause => some cause
  (fitting.map Bytes.dropReturn, fault)

end Source

end Octal
