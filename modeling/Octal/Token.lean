/-!
# Tokens

The words of an expression. A lexeme is a kind with the text it was read from; a token is a lexeme
with the byte offset where it starts.
-/

namespace Octal

/-- The kinds of token, in their numbered order. -/
inductive Kind where
  | eof
  | number
  | ident
  | kwIf
  | kwThen
  | kwElse
  | kwLet
  | kwIn
  | kwDef
  | compare
  | plus
  | minus
  | times
  | divide
  | modulo
  | power
  | openParen
  | closeParen
  | assign
  | comma
  | semicolon
deriving DecidableEq, Repr

namespace Kind

/-- Every kind, in order. -/
def all : List Kind :=
  [eof, number, ident, kwIf, kwThen, kwElse, kwLet, kwIn, kwDef, compare, plus, minus, times,
    divide, modulo, power, openParen, closeParen, assign, comma, semicolon]

/-- The name of a kind in messages. -/
def name : Kind → String
  | eof => "EOF"
  | number => "NUMBER"
  | ident => "IDENT"
  | kwIf => "IF"
  | kwThen => "THEN"
  | kwElse => "ELSE"
  | kwLet => "LET"
  | kwIn => "IN"
  | kwDef => "DEF"
  | compare => "COMPARE"
  | plus => "PLUS"
  | minus => "MINUS"
  | times => "MULT"
  | divide => "DIV"
  | modulo => "MOD"
  | power => "POW"
  | openParen => "LPAREN"
  | closeParen => "RPAREN"
  | assign => "ASSIGN"
  | comma => "COMMA"
  | semicolon => "SEMI"

/-- The words that are not identifiers. -/
def keywords : List (String × Kind) :=
  [("IF", kwIf), ("THEN", kwThen), ("ELSE", kwElse), ("LET", kwLet), ("IN", kwIn), ("DEF", kwDef)]

/-- The kind of a word: a keyword, which is in capitals, or an identifier. -/
def ofWord (word : String) : Kind := (keywords.lookup word).getD ident

/-- The kinds that can end an operand. A minus after one of them is an operator, never a sign. -/
def endsOperand : Kind → Bool
  | number | ident | closeParen => true
  | _ => false

theorem mem_all (k : Kind) : k ∈ all := by cases k <;> decide

end Kind

structure Lexeme where
  kind : Kind
  text : String
deriving DecidableEq, Repr

/-- How a token is shown when `name` is the name of its kind, if it has one. -/
def describeLexeme (name : Option String) (text : String) : String :=
  name.getD "UNKNOWN" ++ " '" ++ text ++ "'"

/-- How a lexeme is shown in messages. -/
def Lexeme.describe (l : Lexeme) : String :=
  if l.kind = .eof then "end of input" else describeLexeme (some l.kind.name) l.text

structure Token extends Lexeme where
  pos : Nat
deriving DecidableEq, Repr

end Octal
