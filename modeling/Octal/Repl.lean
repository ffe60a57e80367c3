import Octal.Batch
import Octal.Command

/-!
# Interactive input

Reading a line, answering it, and so on until the end of the input or a command to quit. Lines are
remembered in a history, which is kept in a file from one run to the next.
-/

namespace Octal

namespace Repl

def banner : String := "octcalc REPL (Ctrl+D to exit, :help for help)\n\n"

def prompt : String := "oct> "

/-! ### Input lines -/

/-- The size of the input buffer. A longer line is taken in parts. -/
def bufferSize : Nat := 4096

/-- Whether the next line is longer than the buffer, the line or the part of it that fits, and what
follows. A carriage return at the end of the buffer is left for the next part, since a newline could
follow it. -/
def nextLine (text : Bytes) : Bool × Bytes × Bytes :=
  let buffer : Bytes := text.take bufferSize
  let line : Bytes := buffer.takeWhile (· != newline)
  if line.length < buffer.length then (false, line.dropReturn, text.drop (line.length + 1))
  else if text.length < bufferSize then (false, text, [])
  else if buffer.getLast? = some carriageReturn then
    (true, buffer.dropLast, text.drop (bufferSize - 1))
  else (true, buffer, text.drop bufferSize)

theorem length_nextLine (text : Bytes) (h : text ≠ []) :
    (nextLine text).2.2.length < text.length := by
  have hpos : 0 < text.length := List.length_pos_iff.2 h
  simp only [nextLine]
  split
  · simp only [List.length_drop]
    omega
  · split
    · simpa using hpos
    · split <;> simp only [List.length_drop, bufferSize] <;> omega

/-- The lines that a text is read as, and for each whether it is only a part. -/
def inputLines (text : Bytes) : List (Bool × Bytes) :=
  if h : text = [] then []
  else
    have := length_nextLine text h
    let next := nextLine text
    (next.1, next.2.1) :: inputLines next.2.2
termination_by text.length

/-! ### History -/

/-- Past input lines, oldest first. -/
abbrev History := List Bytes

namespace History

/-- How many lines a history keeps. -/
def limit : Nat := 1000

/-- Add a line at the end; the oldest go when there are too many. -/
def push (h : History) (line : Bytes) : History :=
  let h := h ++ [line]
  h.drop (h.length - limit)

/-- Remember an input line, unless it repeats the last one. -/
def remember (h : History) (line : Bytes) : History :=
  if h.getLast? = some line then h else h.push line

/-- Whether a line is UTF-8. -/
def isText (line : Bytes) : Bool := (String.fromUTF8? (ByteArray.mk line.toArray)).isSome

/-- The history in a file with contents `text`, up to the first line that does not fit the buffer or
is no text. -/
def decode (text : Bytes) : History :=
  let lines := (inputLines text).takeWhile fun (partly, line) => !partly && isText line
  lines.foldl (fun h (_, line) => h.push line) []

def encode (h : History) : Bytes := h.flatMap (· ++ [newline])

def fileName : String := ".octcalc_history"

/-- The path of the history file. A setting may begin with `~/` for the home directory. -/
def resolvePath (home path : String) : String :=
  if path = "" then Path.join [home, fileName]
  else if path.startsWith "~/" then Path.join [home, (path.drop 2).toString]
  else path

/-- The history in the file at `path`; without one it is empty. -/
def load (disk : Disk) (path : String) : History :=
  match disk.openFile path with
  | .ok src => decode src.text
  | .error _ => []

def saveTo (disk : Disk) (path : String) (h : History) : Disk := disk.writeFile path h.encode

end History

/-! ### Answers -/

/-- The answer to an input line, and whether it is the last. -/
structure Reply where
  quits : Bool
  output : Bytes
  errors : Bytes
  log : List String
  next : Calculator
  history : History

/-- Answer an input line. Blank lines are passed over. -/
def answer (c : Calculator) (now : Instant) (h : History) (line : Bytes) : Reply :=
  let input := Text.trim line
  if input.isEmpty then ⟨false, [], [], [], c, h⟩
  else
    let h := h.remember input
    if input.head? = some 0x3A then
      let command := Command.parse input
      ⟨command = .quit, command.output c, [], [], c, h⟩
    else
      let step := c.evaluate now input
      match step.answer with
      | .ok result => ⟨false, Bytes.ofString (result ++ "\n"), [], step.log, step.next, h⟩
      | .error e => ⟨false, [], Diagnostic.render input e, step.log, step.next, h⟩

/-- Answer lines in order. The end of the input is answered by an empty line. -/
def answerAll (c : Calculator) (now : Instant) (h : History) : List Bytes → Run × History
  | [] => (⟨false, [newline], [], [], c⟩, h)
  | line :: rest =>
    let reply := answer c now h line
    if reply.quits then (⟨false, reply.output, reply.errors, reply.log, reply.next⟩, reply.history)
    else
      let (more, h) := answerAll reply.next now reply.history rest
      ({ more with
          output := reply.output ++ more.output
          errors := reply.errors ++ more.errors
          log := reply.log ++ more.log }, h)

/-- Answer all of `input`, with the history in the file at `path`. -/
def run (c : Calculator) (now : Instant) (disk : Disk) (path : String) (input : Bytes) :
    Run × Disk :=
  let lines := (inputLines input).map Prod.snd
  let (r, h) := answerAll c now (.load disk path) lines
  ({ r with output := Bytes.ofString banner ++ r.output }, h.saveTo disk path)

end Repl

end Octal
