import Octal.Evaluation
import Octal.Statement.Parse

/-!
# Sessions

A session is its settings and the functions defined in it. Evaluating a source runs its statements
one after the other and gives the value of the last one.
-/

namespace Octal

structure Session where
  settings : Settings
  registry : Registry

namespace Session

def new (settings : Settings) : Session := ⟨settings, []⟩

/-- Run a program. An error met in executing it comes before the one that ends it, and a program
without statements has no value. -/
def run (s : Session) (p : Program) : Outcome :=
  let outcome := execute s.settings s.registry [] 0 p.statements
  match outcome.result, p.fault with
  | .ok _, some cause => { outcome with result := .error cause }
  | .ok _, none =>
    if p.statements.isEmpty then
      { outcome with result := .error (.malformed (some 0) .endOfExpression) }
    else outcome
  | .error _, _ => outcome

/-- The outcome of evaluating `src`. -/
def outcome (s : Session) (src : Source) : Outcome := s.run (.parse s.settings.lexing src)

/-- The session after evaluating `src`. -/
def after (s : Session) (src : Source) : Session := { s with registry := (s.outcome src).registry }

/-- The result of evaluating `src`, in octal. -/
def evaluate (s : Session) (src : Source) : Except Error String :=
  (s.outcome src).result.map Numeral.encode

/-- The names of the functions defined, in order. -/
def functions (s : Session) : List String := s.registry.names

/-- The definition of a function as source text. -/
def definition? (s : Session) (name : String) : Option String :=
  (s.registry.get? name).map Function.render

end Session

/-- Evaluate `src` in a new session with default settings. -/
def calculate (src : Source) : Except Error String := (Session.new .default).evaluate src

end Octal
