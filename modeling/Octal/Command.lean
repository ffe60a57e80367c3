import Octal.Calculator
import Octal.Diagnostic
import Octal.Text.Integer

/-!
# Commands

Lines of interactive input that begin with a colon ask about the session instead of evaluating.
-/

namespace Octal

inductive Command where
  | quit
  | help
  | functions
  | definition (name : Bytes)
  | definitionUsage
  | history (limit : Int)
  | historyUsage
  | unknown (word : Bytes)
deriving DecidableEq, Repr

namespace Command

/-- How many entries the history shows unless told otherwise. -/
def defaultShown : Int := 10

def helpMessage : String :=
  "Enter an expression in octal, for example:\n" ++
  "  7 + 1\n" ++
  "  LET x = 10 IN x * x\n" ++
  "  DEF square(x) = x * x\n" ++
  "  square(5)\n" ++
  "\n" ++
  "Commands:\n" ++
  "  :funcs          list defined functions\n" ++
  "  :def NAME       show a function definition\n" ++
  "  :history [N]    show the last N evaluations (default 10)\n" ++
  "  :help           show this help\n" ++
  "  :quit           exit (or Ctrl+D)\n"

/-- The text of a word, for comparing it. -/
def wordText (word : List Rune) : String := String.ofList (word.map Rune.char)

/-- The command that words spell. Only the first word is read in any case. -/
def ofWords : List (List Rune) → Command
  | [] => unknown []
  | word :: arguments =>
    match Text.lowerCase (wordText word) with
    | ":quit" | ":q" | ":exit" => quit
    | ":help" => help
    | ":funcs" => functions
    | ":def" =>
      match arguments with
      | [name] => definition (Rune.encode name)
      | _ => definitionUsage
    | ":history" =>
      match arguments with
      | [] => history defaultShown
      | n :: _ =>
        match Text.readDecimal (n.map Rune.char) with
        | .ok n => if n < 1 then historyUsage else history n
        | .error _ => historyUsage
    | _ => unknown (Rune.encode word)

def parse (input : Bytes) : Command := ofWords (Text.words input)

def line (s : String) : Bytes := Bytes.ofString (s ++ "\n")

/-- The definition of the function with a given name. -/
def definitionOf (c : Calculator) (name : Bytes) : Option String :=
  c.definition? (wordText (Rune.decode name))

/-- An entry of the history. -/
def entryLine (e : Entry) : Bytes :=
  let ending := if e.failed then ": " ++ e.message else " = " ++ e.result
  Bytes.ofString (Diagnostic.number e.seq ++ "  ") ++ e.input ++ line ending

/-- What a command prints. -/
def output (c : Calculator) : Command → Bytes
  | quit => []
  | help => Bytes.ofString helpMessage
  | functions =>
    match c.functions with
    | [] => line "no functions defined"
    | names => names.flatMap fun name => line ((c.definition? name).getD "")
  | definition name =>
    match definitionOf c name with
    | some text => line text
    | none => Bytes.ofString "function " ++ name ++ line " is not defined"
  | definitionUsage => line "usage: :def NAME"
  | history limit =>
    match c.history limit with
    | .ok entries => entries.flatMap entryLine
    | .error e => line ("Error: " ++ e.message)
  | historyUsage => line "usage: :history [N]"
  | unknown word =>
    Bytes.ofString "unknown command " ++ word ++ line ". Type :help for commands."

end Command

end Octal
