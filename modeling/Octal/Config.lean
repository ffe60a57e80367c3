import Octal.Evaluation
import Octal.Log

/-!
# Settings

What a configuration file can set. A field holds the text of its setting; `validate` says whether
all of them have a meaning.
-/

namespace Octal

structure Config where
  /-- The file that the settings come from, if any. -/
  path : String
  maxDepth : Int
  branches : String
  lexing : String
  logLevel : String
  /-- The transcript database. Without one the transcript is kept in memory. -/
  transcript : String
  /-- The file for the input history. -/
  history : String
deriving DecidableEq, Repr

namespace Config

def default : Config := ⟨"", 1000, "eager", "strict", "warn", "", ""⟩

/-- The greatest nesting of calls that can be set. -/
def depthLimit : Nat := 100000

/-- A setting without a meaning. -/
inductive Invalid where
  | maxDepth (n : Int)
  | branches (text : String)
  | lexing (text : String)
  | logLevel (text : String)
deriving DecidableEq, Repr

def Invalid.message : Invalid → String
  | maxDepth n =>
    "max_depth must be between 1 and " ++ depthLimit.repr ++ ", got " ++ toString n
  | branches text =>
    "branches must be \"eager\" or \"lazy\", got " ++ Text.quote text
  | lexing text =>
    "lexing must be \"strict\" or \"lenient\", got " ++ Text.quote text
  | logLevel text =>
    "log_level must be debug, info, warn or error, got " ++ Text.quote text

/-- The log level that a setting names. -/
def parseLevel (text : String) : Except Invalid Log.Level :=
  match Log.Level.ofString? text with
  | some level => .ok level
  | none => .error (.logLevel text)

/-- Check the settings in order; the first invalid one is reported. -/
def validate (c : Config) : Except Invalid Unit := do
  if c.maxDepth < 1 || depthLimit < c.maxDepth then throw (.maxDepth c.maxDepth)
  if c.branches != "eager" && c.branches != "lazy" then throw (.branches c.branches)
  if c.lexing != "strict" && c.lexing != "lenient" then throw (.lexing c.lexing)
  let _ ← parseLevel c.logLevel

/-- Settings as they are compared: without surrounding white space, and names in lower case. -/
def normalize (c : Config) : Config :=
  let name := fun s => Text.lowerCase (Text.trimString s)
  { c with
    branches := name c.branches
    lexing := name c.lexing
    logLevel := name c.logLevel
    transcript := Text.trimString c.transcript
    history := Text.trimString c.history }

/-- Whether only the chosen branch of a conditional is evaluated. -/
def isLazy (c : Config) : Bool := c.branches == "lazy"

/-- Whether unknown characters are skipped. -/
def isLenient (c : Config) : Bool := c.lexing == "lenient"

def branchMode (c : Config) : Branches := if c.isLazy then .lazy else .eager

def lexingMode (c : Config) : Lexing := if c.isLenient then .lenient else .strict

/-- The log level; warnings when the setting has no meaning. -/
def level (c : Config) : Log.Level := (Log.Level.ofString? c.logLevel).getD .warn

end Config

end Octal
