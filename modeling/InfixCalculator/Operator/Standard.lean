import InfixCalculator.Operator.Table

/-!
# The standard operators

What the operators of the standard table compute, and the table.  Operations that are total
on doubles give infinities and not-a-number as they come; the two divisions fail on a zero
divisor and the factorial fails outside its domain.

## Main definitions

* `Arithmetic` — the operations.
* `Operator.addition`, …, `Operator.signMinus` — the operators, each with its symbol, its name
  and its precedence.
* `standardOperators`, `OperatorTable.standard` — all of them, and the table of them.
-/

namespace InfixCalculator

namespace Arithmetic

/-- The sum. -/
def add (left right : Float) : Except EvalError Float := .ok (left + right)

/-- The difference. -/
def subtract (left right : Float) : Except EvalError Float := .ok (left - right)

/-- The product. -/
def multiply (left right : Float) : Except EvalError Float := .ok (left * right)

/-- The quotient.  A divisor of either zero is a failure. -/
def divide (left right : Float) : Except EvalError Float :=
  if right == 0 then .error .divisionByZero else .ok (left / right)

/-- The power. -/
def power (base exponent : Float) : Except EvalError Float := .ok (Float.pow base exponent)

/-- **The remainder of a division that rounds its quotient down.**  It has the
sign of the divisor, so a remainder of the other sign is moved up by one
divisor.  A divisor of either zero is a failure. -/
def modulo (left right : Float) : Except EvalError Float :=
  if right == 0 then .error .divisionByZero
  else
    let remainder := truncatedRemainder left right
    if remainder != 0 && (decide (remainder < 0) != decide (right < 0)) then
      .ok (remainder + right)
    else
      .ok remainder

/-- The larger of two numbers; the other one if one is not a number. -/
def maximum (left right : Float) : Except EvalError Float :=
  if left.isNaN then .ok right
  else if right.isNaN then .ok left
  else .ok (if left < right then right else left)

/-- The smaller of two numbers; the other one if one is not a number. -/
def minimum (left right : Float) : Except EvalError Float :=
  if left.isNaN then .ok right
  else if right.isNaN then .ok left
  else .ok (if right < left then right else left)

/-- Half the sum. -/
def average (left right : Float) : Except EvalError Float := .ok ((left + right) / 2)

/-- The number of the other sign. -/
def negate (value : Float) : Except EvalError Float := .ok (-value)

/-- The largest natural number whose factorial is a finite double. -/
def largestFactorial : Nat := 170

/-- **The factorial** of a natural number up to `2 ^ 53 - 1`, multiplied up
from two and rounded at each step; infinity above `largestFactorial`. -/
def factorial (value : Float) : Except EvalError Float :=
  match exactNatural? value with
  | none => .error (.factorialDomain value)
  | some n =>
      if largestFactorial < n then .ok (Binary64.infinite false).toFloat
      else .ok ((List.range' 2 (n - 1)).foldl (fun product k => product * Float.ofNat k) 1)

/-- The sum of the decimal digits of a number's text. -/
def digitSum (value : Float) : Except EvalError Float :=
  let digits := (Number.chars value).filter Char.isDigit
  .ok (Float.ofNat (digits.foldl (fun total digit => total + (digit.toNat - '0'.toNat)) 0))

end Arithmetic

/-! ## The operators -/

namespace Operator

/-- The sum of two numbers. -/
def addition : Operator := ⟨"+", "addition", 1, .between .left Arithmetic.add⟩

/-- The difference of two numbers. -/
def subtraction : Operator :=
  ⟨Minus.subtraction.symbol, "subtraction", 1, .between .left Arithmetic.subtract⟩

/-- The product of two numbers. -/
def multiplication : Operator := ⟨"*", "multiplication", 2, .between .left Arithmetic.multiply⟩

/-- The quotient of two numbers. -/
def division : Operator := ⟨"/", "division", 2, .between .left Arithmetic.divide⟩

/-- The minus sign at the start of an expression. -/
def leadingMinus : Operator :=
  ⟨Minus.leading.symbol, "unary minus", 3, .before Arithmetic.negate⟩

/-- The power.  Of neighbouring powers the right one is applied first. -/
def power : Operator := ⟨"^", "power", 4, .between .right Arithmetic.power⟩

/-- The remainder of a division. -/
def modulo : Operator := ⟨"%", "modulo", 5, .between .left Arithmetic.modulo⟩

/-- The larger of two numbers. -/
def maximum : Operator := ⟨"$", "maximum", 6, .between .left Arithmetic.maximum⟩

/-- The smaller of two numbers. -/
def minimum : Operator := ⟨"&", "minimum", 6, .between .left Arithmetic.minimum⟩

/-- The mean of two numbers. -/
def average : Operator := ⟨"@", "average", 6, .between .left Arithmetic.average⟩

/-- The factorial, which stands behind its operand. -/
def factorial : Operator := ⟨"!", "factorial", 7, .after Arithmetic.factorial⟩

/-- The number of the other sign, without a minus sign. -/
def negation : Operator := ⟨"~", "negation", 7, .before Arithmetic.negate⟩

/-- The sum of the digits of a number, which stands behind it too. -/
def digitSum : Operator := ⟨"#", "digit sum", 7, .after Arithmetic.digitSum⟩

/-- The minus sign in front of a value. -/
def signMinus : Operator := ⟨Minus.sign.symbol, "sign minus", 8, .before Arithmetic.negate⟩

end Operator

open Operator in
/-- The standard operators, from those applied last to those applied first. -/
def standardOperators : List Operator :=
  [addition, subtraction, multiplication, division, leadingMinus, power, modulo, maximum, minimum,
    average, factorial, negation, digitSum, signMinus]

/-- **The standard table.** -/
def OperatorTable.standard : OperatorTable := OperatorTable.empty.insertAll standardOperators

end InfixCalculator
