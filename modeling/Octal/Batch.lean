import Octal.Calculator
import Octal.Text.Line

/-!
# Batches

Evaluating a source line by line in one session. Blank lines and lines that begin with `#` are
skipped; every other line is answered by a line of output.
-/

namespace Octal

/-- What a run writes and logs, whether all went well, and the calculator after it. -/
structure Run where
  failed : Bool
  output : Bytes
  errors : Bytes
  log : List String
  next : Calculator

namespace Run

/-- The exit code of a run. -/
def code (r : Run) : Nat := if r.failed then 1 else 0

end Run

namespace Batch

/-- Whether a trimmed line is skipped. -/
def isSkipped (line : Bytes) : Bool := line.isEmpty || line.head? = some 0x23

/-- The line of output for `input`. -/
def answer (input : Bytes) : Except Error String → Bytes
  | .ok result => input ++ Bytes.ofString (" = " ++ result ++ "\n")
  | .error e => input ++ Bytes.ofString (": " ++ e.message ++ "\n")

/-- Evaluate lines in order. -/
def runLines (c : Calculator) (now : Instant) : List Bytes → Run
  | [] => ⟨false, [], [], [], c⟩
  | line :: rest =>
    let input := Text.trim line
    if isSkipped input then runLines c now rest
    else
      let step := c.evaluate now input
      let more := runLines step.next now rest
      { failed := !step.answer.isOk || more.failed
        output := answer input step.answer ++ more.output
        errors := more.errors
        log := step.log ++ more.log
        next := more.next }

/-- Evaluate a source line by line. One that cannot be read to its end fails the run. -/
def run (c : Calculator) (now : Instant) (src : Source) : Run :=
  let (lines, fault) := src.readLines
  let r := runLines c now lines
  match fault with
  | none => r
  | some cause =>
    { r with
      failed := true
      errors := Bytes.ofString ("Error reading input: " ++ cause.message ++ "\n") }

end Batch

end Octal
