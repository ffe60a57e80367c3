import Octal.Error
import Octal.Operator

/-!
# Checked arithmetic

Values are signed 64-bit integers. Sums, products and negations are computed in wrapping arithmetic
and the wrapped result is inspected: it is wrong exactly when the true result does not fit, and
then the operation fails. Division and remainder round toward negative infinity.
-/

namespace Octal

abbrev Value := Int64

namespace Value

def ofBool (b : Bool) : Value := if b then 1 else 0

def add (a b : Value) : Except Error Value :=
  let c := a + b
  if (0 < a && 0 < b && c < 0) || (a < 0 && b < 0 && 0 ≤ c) then .error .overflow else .ok c

def sub (a b : Value) : Except Error Value :=
  let c := a - b
  if (0 ≤ a && b < 0 && c < 0) || (a < 0 && 0 < b && 0 ≤ c) then .error .overflow else .ok c

/-- A product is checked by dividing it back. The least value times minus one wraps to itself and
passes that test, so it is refused before. -/
def mul (a b : Value) : Except Error Value :=
  if a == 0 || b == 0 then .ok 0
  else if (a == -1 && b == Int64.minValue) || (b == -1 && a == Int64.minValue) then .error .overflow
  else
    let c := a * b
    if c / b != a then .error .overflow else .ok c

def neg (a : Value) : Except Error Value :=
  if a == Int64.minValue then .error .overflow else .ok (-a)

/-- The quotient rounded toward negative infinity. -/
def floorDiv (a b : Value) : Except Error Value :=
  if b == 0 then .error .divisionByZero
  else if a == Int64.minValue && b == -1 then .error .overflow
  else
    let q := a / b
    .ok (if a % b != 0 && decide (a < 0) != decide (b < 0) then q - 1 else q)

/-- The remainder of `floorDiv`: zero or of the sign of the divisor. -/
def floorMod (a b : Value) : Except Error Value :=
  if b == 0 then .error .divisionByZero
  else
    let m := a % b
    .ok (if m != 0 && decide (m < 0) != decide (b < 0) then m + b else m)

/-- `result * base ^ exp` by squaring. The base is squared only while bits of the exponent are left,
so no square is computed that the answer does not need. -/
def powLoop (result base : Value) (exp : Nat) : Except Error Value :=
  if exp = 0 then .ok result
  else do
    let result ← if exp % 2 = 1 then mul result base else pure result
    if exp / 2 = 0 then pure result
    else
      let base ← mul base base
      powLoop result base (exp / 2)
termination_by exp

def pow (base exp : Value) : Except Error Value :=
  if exp < 0 then .error .negativeExponent else powLoop 1 base exp.toNatClampNeg

end Value

/-- The value of `a op b`. A comparison is 1 or 0. -/
def Operator.apply : Operator → Value → Value → Except Error Value
  | .add, a, b => a.add b
  | .sub, a, b => a.sub b
  | .mul, a, b => a.mul b
  | .div, a, b => a.floorDiv b
  | .mod, a, b => a.floorMod b
  | .pow, a, b => a.pow b
  | .eq, a, b => .ok (.ofBool (a == b))
  | .ne, a, b => .ok (.ofBool (a != b))
  | .lt, a, b => .ok (.ofBool (a < b))
  | .gt, a, b => .ok (.ofBool (b < a))
  | .le, a, b => .ok (.ofBool (a ≤ b))
  | .ge, a, b => .ok (.ofBool (b ≤ a))

end Octal
