import Octal.Config
import Octal.Session
import Octal.Transcript

/-!
# Calculators

A calculator is a session with its surroundings: a transcript that records every evaluation, and a
logger that is told what happens in it. Neither has any influence on results.
-/

namespace Octal

namespace Event

/-- What the log says about an event. -/
def record : Event → Log.Record
  | define name arity => ⟨.debug, "define function", [("function", name), ("arity", arity.repr)]⟩
  | call name depth => ⟨.debug, "call", [("function", name), ("depth", depth.repr)]⟩
  | ret name depth value =>
    ⟨.debug, "return",
      [("function", name), ("depth", depth.repr), ("value", toString value.toInt)]⟩
  | statement s value =>
    ⟨.debug, "statement", [("source", s.render), ("value", toString value.toInt)]⟩

end Event

structure Calculator where
  session : Session
  transcript : Option Transcript
  /-- Where records go; without a logger nowhere. -/
  logger : Option Log.Handler

/-- What an operation answers, the lines it logs, and the calculator after it. -/
structure Step (α : Type) where
  answer : α
  log : List String
  next : Calculator

namespace Calculator

/-- The lines that the logger writes for records. -/
def logLines (c : Calculator) (records : List Log.Record) : List String :=
  match c.logger with
  | none => []
  | some h => records.flatMap (h.write ·)

/-- The record of a transcript that refuses an entry. -/
def recordFailure (cause : Error) : Log.Record :=
  ⟨.warn, "transcript record failed", [("error", cause.message)]⟩

/-- Record an evaluation. A transcript that refuses it is only logged. -/
def keep (transcript : Option Transcript) (now : Instant) (d : Draft) :
    Option Transcript × List Log.Record :=
  match transcript with
  | none => (none, [])
  | some t =>
    match t.record now d with
    | .ok (_, t) => (some t, [])
    | .error cause => (some t, [recordFailure cause])

/-- Evaluate `input` and record it. -/
def evaluate (c : Calculator) (now : Instant) (input : Bytes) :
    Step (Except Error String) :=
  let outcome := c.session.outcome (.complete input)
  let result := outcome.result.map Numeral.encode
  let (transcript, failures) := keep c.transcript now (.ofResult input result)
  { answer := result
    log := c.logLines (outcome.trace.reverse.map Event.record ++ failures)
    next := { c with session := { c.session with registry := outcome.registry }, transcript } }

/-- Evaluate all that a source has. One that cannot be read to its end is not evaluated. -/
def evaluateSource (c : Calculator) (now : Instant) (src : Source) :
    Step (Except Error String) :=
  match src.ending with
  | .complete => c.evaluate now src.text
  | .cutOff cause => ⟨.error cause, [], c⟩

/-- Evaluate the contents of a file. -/
def evaluateFile (c : Calculator) (now : Instant) (disk : Disk) (path : String) :
    Step (Except Error String) :=
  match disk.openFile path with
  | .error cause => ⟨.error cause, [], c⟩
  | .ok src => c.evaluateSource now src

/-- The names of the functions defined, in order. -/
def functions (c : Calculator) : List String := c.session.functions

/-- The definition of a function as source text. -/
def definition? (c : Calculator) (name : String) : Option String := c.session.definition? name

/-- The newest `limit` transcript entries, oldest first. Without a transcript there are none. -/
def history (c : Calculator) (limit : Int) : Except Error (List Entry) :=
  match c.transcript with
  | none => .ok []
  | some t => t.recent limit

def close (c : Calculator) : Calculator := { c with transcript := c.transcript.map .close }

/-- The files after the transcript has been written to its file. -/
def saveTo (disk : Disk) (c : Calculator) : Disk :=
  match c.transcript with
  | none => disk
  | some t => t.saveTo disk

/-! ### Setting up -/

/-- A choice in setting up a calculator. Later choices come on top of earlier ones. -/
inductive Choice where
  /-- Call nesting; only a positive number changes it. -/
  | maxDepth (n : Int)
  | lazyBranches
  | lenientLexing
  | transcript (t : Transcript)
  /-- A transcript database, used when no transcript is chosen otherwise. -/
  | database (path : String)
  | logger (h : Log.Handler)
  | config (c : Config)

/-- The choices made so far. -/
structure Plan where
  maxDepth : Int
  branches : Branches
  lexing : Lexing
  transcript : Option Transcript
  database : String
  logger : Option Log.Handler
  /-- The level of a configuration. It filters whichever logger is chosen. -/
  level : Option Log.Level

namespace Plan

def start : Plan := ⟨Settings.default.maxDepth, .eager, .strict, none, "", none, none⟩

def choose (p : Plan) : Choice → Plan
  | .maxDepth n => if 0 < n then { p with maxDepth := n } else p
  | .lazyBranches => { p with branches := .lazy }
  | .lenientLexing => { p with lexing := .lenient }
  | .transcript t => { p with transcript := some t }
  | .database path => { p with database := path }
  | .logger h => { p with logger := some h }
  | .config c =>
    { p with
      maxDepth := c.maxDepth
      branches := c.branchMode
      lexing := c.lexingMode
      level := some c.level
      database := if c.transcript = "" then p.database else c.transcript }

/-- Evaluation settings. A depth that is not positive means the default. -/
def settings (p : Plan) : Settings :=
  ⟨if 0 < p.maxDepth then p.maxDepth.toNat else Settings.default.maxDepth, p.branches, p.lexing⟩

def handler (p : Plan) : Option Log.Handler :=
  match p.level with
  | none => p.logger
  | some level => p.logger.map (.wrap level)

/-- The transcript to use. Opening a database can fail. -/
def openTranscript (disk : Disk) (p : Plan) : Except Error (Option Transcript) :=
  match p.transcript with
  | some t => .ok (some t)
  | none => if p.database = "" then .ok none else (Transcript.openAt disk p.database).map some

end Plan

/-- A calculator with the given choices. -/
def new (disk : Disk) (choices : List Choice) : Except Error Calculator :=
  let plan := choices.foldl Plan.choose .start
  (plan.openTranscript disk).map fun t => ⟨.new plan.settings, t, plan.handler⟩

end Calculator

end Octal
