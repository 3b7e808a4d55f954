import InfixCalculator.Operator.Standard
import InfixCalculator.Postfix.Evaluation
import InfixCalculator.Postfix.ShuntingYard
import InfixCalculator.Token.Scanner

/-!
# Calculating

An expression is scanned, put into postfix order and evaluated, with the
operators of a table.

## Main definitions

* `OperatorTable.postfixForm` — the tokens of an expression in postfix order.
* `OperatorTable.calculate` — the value of an expression.
* `calculate` — the value of an expression with the standard operators.
-/

namespace InfixCalculator

namespace OperatorTable

/-- **The tokens of an expression in postfix order.**  Blanks are taken out
first. -/
def postfixForm (table : OperatorTable) (expression : String) :
    Except SyntaxError (List Token) :=
  table.postfixOrder (table.items (withoutBlanks expression))

/-- **The value of an expression**, or why it has none. -/
def calculate (table : OperatorTable) (expression : String) : Except CalculationError Float := do
  let tokens ← (table.postfixForm expression).mapError .reading
  (table.valueOf tokens).mapError .evaluating

end OperatorTable

/-- The value of an expression with the standard operators. -/
def calculate (expression : String) : Except CalculationError Float :=
  OperatorTable.standard.calculate expression

end InfixCalculator
