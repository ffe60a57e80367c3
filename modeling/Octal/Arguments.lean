import Octal.Text.Integer
import Octal.Text.Quoted

/-!
# Command-line arguments

Flags begin with one or two dashes and take their value after `=` or from the next argument. Flags end
at the first argument that is none, or after `--`. A flag given twice keeps the last value.
-/

namespace Octal

/-- What the flags set. -/
structure Arguments where
  config : String
  expression : String
  file : String
  database : String
  maxDepth : Int
  lazyBranches : Bool
  lenientLexing : Bool
  verbose : Bool
deriving DecidableEq, Repr

namespace Arguments

/-- The values without any flag. -/
def unset : Arguments := ⟨"", "", "", "", 0, false, false, false⟩

/-- A flag that takes a text. -/
inductive TextFlag where
  | config
  | expression
  | file
  | database
deriving DecidableEq, Repr

/-- A flag that is on or off. -/
inductive Switch where
  | lazyBranches
  | lenientLexing
  | verbose
deriving DecidableEq, Repr

inductive Flag where
  | text (f : TextFlag)
  | maxDepth
  | switch (s : Switch)
deriving DecidableEq, Repr

def Flag.ofName? : String → Option Flag
  | "config" => some (.text .config)
  | "e" => some (.text .expression)
  | "f" => some (.text .file)
  | "db" => some (.text .database)
  | "max-depth" => some .maxDepth
  | "lazy" => some (.switch .lazyBranches)
  | "lenient" => some (.switch .lenientLexing)
  | "v" => some (.switch .verbose)
  | _ => none

/-- Why arguments are refused. Asking for help counts, but needs no message. -/
inductive Refusal where
  | help
  | badFlag (argument : String)
  | undefined (name : String)
  | missingValue (name : String)
  | badSwitch (value name : String)
  | badInteger (value name : String) (fault : Text.IntegerFault)
deriving DecidableEq, Repr

def usage : String :=
  "Usage of octcalc:\n" ++
  "  -config string\n" ++
  "    \tYAML config file\n" ++
  "  -db string\n" ++
  "    \tSQLite transcript path (default: in memory)\n" ++
  "  -e string\n" ++
  "    \tEvaluate expression and print the result\n" ++
  "  -f string\n" ++
  "    \tEvaluate each line of a file\n" ++
  "  -lazy\n" ++
  "    \tEvaluate only the selected IF branch\n" ++
  "  -lenient\n" ++
  "    \tSkip unrecognized characters\n" ++
  "  -max-depth int\n" ++
  "    \tMaximum function call nesting\n" ++
  "  -v\tLog evaluation trace to stderr\n"

namespace Refusal

def faultText : Text.IntegerFault → String
  | .notInteger => "parse error"
  | .outOfRange => "value out of range"

def reason? : Refusal → Option String
  | help => none
  | badFlag argument => some ("bad flag syntax: " ++ argument)
  | undefined name => some ("flag provided but not defined: -" ++ name)
  | missingValue name => some ("flag needs an argument: -" ++ name)
  | badSwitch value name =>
    some ("invalid boolean value " ++ Text.quote value ++ " for -" ++ name ++ ": parse error")
  | badInteger value name fault =>
    some ("invalid value " ++ Text.quote value ++ " for flag -" ++ name ++ ": " ++ faultText fault)

/-- The reason, if there is one to give, and the usage. -/
def message (r : Refusal) : String := (r.reason?.map (· ++ "\n")).getD "" ++ usage

end Refusal

/-- The value of a switch. -/
def readSwitch? : String → Option Bool
  | "1" | "t" | "T" | "TRUE" | "true" | "True" => some true
  | "0" | "f" | "F" | "FALSE" | "false" | "False" => some false
  | _ => none

def setText (a : Arguments) (value : String) : TextFlag → Arguments
  | .config => { a with config := value }
  | .expression => { a with expression := value }
  | .file => { a with file := value }
  | .database => { a with database := value }

def setSwitch (a : Arguments) (value : Bool) : Switch → Arguments
  | .lazyBranches => { a with lazyBranches := value }
  | .lenientLexing => { a with lenientLexing := value }
  | .verbose => { a with verbose := value }

def setMaxDepth (a : Arguments) (name value : String) : Except Refusal Arguments :=
  match Text.readInteger value with
  | .ok n => .ok { a with maxDepth := n }
  | .error fault => .error (.badInteger value name fault)

/-- What an argument is. -/
inductive Form where
  /-- No flag: the flags end before it. -/
  | operand
  /-- The end of the flags. -/
  | terminator
  | malformed
  /-- A flag, with a value if it has one after `=`. -/
  | flag (name : String) (value : Option String)
deriving DecidableEq, Repr

/-- The form of an argument, given what follows its dashes. -/
def Form.ofBody : List Char → Form
  | [] => malformed
  | c :: rest =>
    if c == '-' || c == '=' then malformed
    else
      let name := c :: rest.takeWhile (· != '=')
      match rest.dropWhile (· != '=') with
      | [] => flag (String.ofList name) none
      | _ :: value => flag (String.ofList name) (some (String.ofList value))

def Form.ofArgument (argument : String) : Form :=
  match argument.toList with
  | ['-', '-'] => terminator
  | '-' :: '-' :: body => ofBody body
  | ['-'] => operand
  | '-' :: body => ofBody body
  | _ => operand

/-- Read flags in order, on top of `a`. -/
def parseFrom (a : Arguments) : List String → Except Refusal Arguments
  | [] => .ok a
  | argument :: rest =>
    match Form.ofArgument argument with
    | .operand | .terminator => .ok a
    | .malformed => .error (.badFlag argument)
    | .flag name value =>
      match Flag.ofName? name, value, rest with
      | none, _, _ =>
        .error (if name == "help" || name == "h" then .help else .undefined name)
      | some (.switch s), none, rest => parseFrom (a.setSwitch true s) rest
      | some (.switch s), some value, rest =>
        match readSwitch? value with
        | some b => parseFrom (a.setSwitch b s) rest
        | none => .error (.badSwitch value name)
      | some (.text f), some value, rest => parseFrom (a.setText value f) rest
      | some (.text f), none, value :: rest => parseFrom (a.setText value f) rest
      | some .maxDepth, some value, rest =>
        match a.setMaxDepth name value with
        | .ok a => parseFrom a rest
        | .error r => .error r
      | some .maxDepth, none, value :: rest =>
        match a.setMaxDepth name value with
        | .ok a => parseFrom a rest
        | .error r => .error r
      | some (.text _), none, [] | some .maxDepth, none, [] =>
        .error (.missingValue name)

/-- The values that `args` set. -/
def parse (args : List String) : Except Refusal Arguments := parseFrom unset args

end Arguments

end Octal
