import Octal.Text.Quoted
import Octal.Token

/-!
# Failures

Everything that can go wrong with an evaluation, as a cause. `Error.message` has the wording and
`Error.category` the stable name under which transcripts file the failure.
-/

namespace Octal

/-- What is wrong with a text that is not an expression. -/
inductive Problem where
  | strayCharacter (c : Char)
  | endOfExpression
  | unexpected (got : Lexeme)
  | expected (kind : Kind) (got : Lexeme)
  | trailing (got : Lexeme)
  | bodyContinues (got : Lexeme)
  | duplicateParameter (name : String)
  | misplacedDefinition
  | unknownComparison (text : String)
  | emptyNumeral
  | unknownOperator
  | described (text : String)
deriving DecidableEq, Repr

def Problem.message : Problem → String
  | strayCharacter c => "unexpected character " ++ Text.quoteChar c
  | endOfExpression => "unexpected end of expression"
  | unexpected got => "unexpected " ++ got.describe
  | expected kind got => "expected " ++ kind.name ++ ", got " ++ got.describe
  | trailing got => "unexpected " ++ got.describe ++ " after expression"
  | bodyContinues got => "function body must end the statement, got " ++ got.describe
  | duplicateParameter name => "duplicate parameter '" ++ name ++ "'"
  | misplacedDefinition => "DEF must start a statement"
  | unknownComparison text => "unknown comparison " ++ Text.quote text
  | emptyNumeral => "empty octal literal"
  | unknownOperator => "unknown operator ?"
  | described text => text

inductive Error where
  /-- The text is no expression. `pos` is the byte offset of the problem, if it has one. -/
  | malformed (pos : Option Nat) (problem : Problem)
  | badDigit (digit : Char)
  | unboundVariable (name : String)
  | undefinedFunction (name : String)
  | wrongArity (name : String) (expected got : Int)
  | depthExceeded (limit : Int)
  | divisionByZero
  | negativeExponent
  | overflow
  /-- A failure outside the calculator: a reader, a file, a transcript. -/
  | outside (text : String)
deriving DecidableEq, Repr

namespace Error

def message : Error → String
  | malformed none p => "parse error: " ++ p.message
  | malformed (some pos) p => "parse error at " ++ pos.repr ++ ": " ++ p.message
  | badDigit d => "invalid octal digit: '" ++ String.singleton d ++ "' (octal uses 0-7)"
  | unboundVariable name => "variable '" ++ name ++ "' is not defined"
  | undefinedFunction name => "function '" ++ name ++ "' is not defined"
  | wrongArity name expected got =>
    "function '" ++ name ++ "' expects " ++ toString expected ++ " argument(s), but got " ++
      toString got
  | depthExceeded limit => "recursion limit of " ++ toString limit ++ " exceeded"
  | divisionByZero => "division by zero is not allowed"
  | negativeExponent => "negative exponent is not allowed"
  | overflow => "integer overflow"
  | outside text => text

/-- The name of the kind of failure. -/
def category : Error → String
  | malformed _ _ => "parse"
  | badDigit _ => "invalid_octal_digit"
  | unboundVariable _ => "variable_not_found"
  | undefinedFunction _ => "function_not_defined"
  | wrongArity _ _ _ => "invalid_argument_count"
  | depthExceeded _ => "recursion_limit"
  | divisionByZero => "division_by_zero"
  | negativeExponent => "negative_exponent"
  | overflow => "overflow"
  | outside _ => "internal"

/-- The byte offset an error points at. -/
def position : Error → Option Nat
  | malformed pos _ => pos
  | _ => none

end Error

/-- An error met while doing something else: `contexts` says what, innermost first. -/
structure Failure where
  contexts : List String
  cause : Error
deriving DecidableEq, Repr

namespace Failure

def ofError (e : Error) : Failure := ⟨[], e⟩

/-- Contexts only lead the message; the category is that of the cause. -/
def message (f : Failure) : String :=
  f.contexts.foldl (fun text context => context ++ ": " ++ text) f.cause.message

end Failure

instance : Coe Error Failure := ⟨Failure.ofError⟩

end Octal
