import Octal.Numeral

/-!
# Expressions

The trees that sources denote. Every node has the byte offset of its operator or first token.
`render` writes a tree as source again: operations in full parentheses, and conditionals and
bindings in parentheses where they are operands, since they extend as far right as possible.
-/

namespace Octal

inductive Expr where
  | num (pos : Nat) (value : Value)
  | var (pos : Nat) (name : String)
  | neg (pos : Nat) (operand : Expr)
  | binary (pos : Nat) (op : Operator) (left right : Expr)
  | cond (pos : Nat) (test whenTrue whenFalse : Expr)
  | bind (pos : Nat) (name : String) (value body : Expr)
  | call (pos : Nat) (name : String) (args : List Expr)
deriving Repr, BEq

namespace Expr

def pos : Expr → Nat
  | num pos _ | var pos _ | neg pos _ | binary pos _ _ _ | cond pos _ _ _ | bind pos _ _ _
  | call pos _ _ => pos

/-- Whether an expression needs parentheses as an operand. -/
def isOpen : Expr → Bool
  | cond .. | bind .. => true
  | _ => false

/-- The text of an operand whose own text is `text`. -/
def parenthesize (e : Expr) (text : String) : String :=
  if e.isOpen then "(" ++ text ++ ")" else text

mutual

/-- Source text for an expression. -/
def render : Expr → String
  | num _ value => Numeral.encode value
  | var _ name => name
  | neg _ e => "-" ++ e.parenthesize e.render
  | binary _ op l r =>
    "(" ++ l.parenthesize l.render ++ " " ++ op.symbol ++ " " ++ r.parenthesize r.render ++ ")"
  | cond _ c t e => "IF " ++ c.render ++ " THEN " ++ t.render ++ " ELSE " ++ e.render
  | bind _ name v b => "LET " ++ name ++ " = " ++ v.render ++ " IN " ++ b.render
  | call _ name args => name ++ "(" ++ ", ".intercalate (renderAll args) ++ ")"

def renderAll : List Expr → List String
  | [] => []
  | e :: rest => e.render :: renderAll rest

end

end Expr

/-- A function given by the names of its parameters and its body. -/
structure Function where
  name : String
  params : List String
  body : Expr
deriving Repr, BEq

namespace Function

def arity (f : Function) : Nat := f.params.length

/-- The definition of `f` as source text. -/
def render (f : Function) : String :=
  "DEF " ++ f.name ++ "(" ++ ", ".intercalate f.params ++ ") = " ++ f.body.render

end Function

inductive Statement where
  | eval (e : Expr)
  | define (pos : Nat) (f : Function)
deriving Repr, BEq

namespace Statement

def pos : Statement → Nat
  | eval e => e.pos
  | define pos _ => pos

def render : Statement → String
  | eval e => e.render
  | define _ f => f.render

end Statement

end Octal
