import Octal.Arguments
import Octal.Config.Load
import Octal.Repl

/-!
# Invocations

One run of the program: arguments are read, a configuration is loaded and the flags are applied to it, a
calculator is set up, and an expression, a file or the input is evaluated.
-/

namespace Octal

namespace Invocation

/-- What a run leaves behind. -/
structure Result where
  code : Nat
  output : Bytes
  /-- What is written beside the output. Log lines come first. -/
  errors : Bytes
  disk : Disk

/-- A run that ends with a message. -/
def fail (code : Nat) (disk : Disk) (message : Bytes) : Result := ⟨code, [], message, disk⟩

def errorLine (message : Bytes) : Bytes := Bytes.ofString "Error: " ++ message ++ [newline]

/-- Flags override the configuration. -/
def override (a : Arguments) (c : Config) : Config :=
  { c with
    maxDepth := if a.maxDepth = 0 then c.maxDepth else a.maxDepth
    branches := if a.lazyBranches then "lazy" else c.branches
    lexing := if a.lenientLexing then "lenient" else c.lexing
    logLevel := if a.verbose then "debug" else c.logLevel
    transcript := if a.database = "" then c.transcript else a.database }

/-- The configuration for a run, or a message. -/
def configure (disk : Disk) (a : Arguments) : Except Bytes Config :=
  let loaded : Except Bytes Config :=
    if a.config = "" then .ok .default
    else match Config.load disk a.config with
      | .ok c => .ok c
      | .error fault => .error fault.message
  match loaded with
  | .error message => .error message
  | .ok c =>
    let c := override a c
    match c.validate with
    | .ok () => .ok c
    | .error setting => .error (Bytes.ofString setting.message)

/-- How the calculator is set up. An interactive session always has a transcript. -/
def choices (c : Config) (interactive : Bool) : List Calculator.Choice :=
  let basic := [Calculator.Choice.config c, .logger (.plain c.level)]
  if interactive && c.transcript = "" then basic ++ [.transcript (.memory .empty)] else basic

/-- Whether the arguments leave the input to be evaluated. -/
def readsInput (a : Arguments) : Bool := a.expression = "" && a.file = ""

/-- The files that a run reads or writes, as far as they are known before it is configured. -/
def paths (a : Arguments) : List String := [a.config, a.file]

/-- The files that a configured run reads or writes besides. -/
def configuredPaths (home : String) (c : Config) : List String :=
  (Location.path? c.transcript).toList ++ [Repl.History.resolvePath home c.history]

/-- Evaluate one expression. -/
def evaluate (c : Calculator) (now : Instant) (expression : String) : Run :=
  let input := Bytes.ofString expression
  let step := c.evaluate now input
  match step.answer with
  | .ok result => ⟨false, Bytes.ofString (result ++ "\n"), [], step.log, step.next⟩
  | .error e => ⟨true, [], Diagnostic.render input e, step.log, step.next⟩

/-- Do what the arguments ask for: an expression comes before a file, and a file before the input. -/
def perform (c : Calculator) (now : Instant) (disk : Disk) (a : Arguments) (input : Source) : Run :=
  if a.expression != "" then evaluate c now a.expression
  else if a.file != "" then
    match disk.openFile a.file with
    | .ok src => Batch.run c now src
    | .error e => ⟨true, [], errorLine (Bytes.ofString e.message), [], c⟩
  else Batch.run c now input

/-- The lines of a log. -/
def logText (lines : List String) : Bytes := lines.flatMap fun l => Bytes.ofString (l ++ "\n")

/-- Run with parsed arguments. -/
def start (disk : Disk) (now : Instant) (a : Arguments) (input : Source) : Result :=
  match configure disk a with
  | .error message => fail 1 disk (errorLine message)
  | .ok config =>
    match Calculator.new disk (choices config false) with
    | .error e => fail 1 disk (errorLine (Bytes.ofString e.message))
    | .ok c =>
      let r := perform c now disk a input
      ⟨r.code, r.output, logText r.log ++ r.errors, r.next.close.saveTo disk⟩

/-- Run with the arguments `args`, reading from `input` when they name nothing to evaluate. -/
def run (disk : Disk) (now : Instant) (args : List String) (input : Source) : Result :=
  match Arguments.parse args with
  | .error refusal => fail 2 disk (Bytes.ofString refusal.message)
  | .ok a => start disk now a input

end Invocation

end Octal
