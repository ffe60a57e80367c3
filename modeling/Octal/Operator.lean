/-!
# Binary operators
-/

namespace Octal

/-- The binary operators, in their numbered order: arithmetic, then comparisons. -/
inductive Operator where
  | add | sub | mul | div | mod | pow
  | eq | ne | lt | gt | le | ge
deriving DecidableEq, Repr

namespace Operator

/-- Every operator, in order. -/
def all : List Operator := [add, sub, mul, div, mod, pow, eq, ne, lt, gt, le, ge]

def comparisons : List Operator := [eq, ne, lt, gt, le, ge]

/-- The operator as it is written. -/
def symbol : Operator → String
  | add => "+"
  | sub => "-"
  | mul => "*"
  | div => "/"
  | mod => "%"
  | pow => "^"
  | eq => "=="
  | ne => "!="
  | lt => "<"
  | gt => ">"
  | le => "<="
  | ge => ">="

def ofSymbol? (s : String) : Option Operator := all.find? (·.symbol = s)

/-- The comparison written `s`. -/
def comparison? (s : String) : Option Operator := comparisons.find? (·.symbol = s)

theorem mem_all (op : Operator) : op ∈ all := by cases op <;> decide

end Operator

end Octal
