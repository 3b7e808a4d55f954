import InfixCalculator.Operator.Table
import InfixCalculator.Token

/-!
# The value of a sequence in postfix order

Numbers are put on a stack, and an operator replaces its operands on top of the
stack by its result.  A sequence has a value if one number is left at the end.

## Main definitions

* `ValueStack.step`, `ValueStack.run` — the stack after one token, and after
  many.
* `OperatorTable.valueOf` — the value of a sequence, or the first failure.
-/

namespace InfixCalculator

/-- The numbers on the stack, the newest first. -/
abbrev ValueStack := List Float

namespace ValueStack

/-- **The stack after one token.**  An operator takes as many numbers as it has
operands, the newest being the last operand; its result must be finite.  A
parenthesis has no place in a sequence in postfix order. -/
def step (table : OperatorTable) (values : ValueStack) : Token → Except EvalError ValueStack
  | .number value => .ok (value :: values)
  | .operator symbol =>
      match table.find? symbol with
      | none => .error (.unknownOperator symbol)
      | some op => do
          let value ← op.evaluate (values.take op.operandCount).reverse
          return value :: values.drop op.operandCount
  | .opening | .closing => .error (.valuesLeft values.length)

/-- **The stack after a sequence of tokens**, or the first failure. -/
def run (table : OperatorTable) (values : ValueStack) (tokens : List Token) :
    Except EvalError ValueStack :=
  tokens.foldlM (step table) values

@[simp] theorem run_nil (table : OperatorTable) (values : ValueStack) :
    run table values [] = .ok values := rfl

theorem run_cons (table : OperatorTable) (values : ValueStack) (token : Token)
    (tokens : List Token) :
    run table values (token :: tokens) = step table values token >>= (run table · tokens) := rfl

/-- Reading tokens and then more tokens is reading all of them. -/
theorem run_append (table : OperatorTable) (values : ValueStack) (tokens more : List Token) :
    run table values (tokens ++ more) = run table values tokens >>= (run table · more) := by
  simp [run]

end ValueStack

/-- **The value of a sequence in postfix order.**  There is none without tokens,
and none if the numbers that are left are not exactly one. -/
def OperatorTable.valueOf (table : OperatorTable) (tokens : List Token) :
    Except EvalError Float :=
  if tokens.isEmpty then .error .nothingToEvaluate
  else do
    match ← ValueStack.run table [] tokens with
    | [value] => return value
    | values => throw (.valuesLeft values.length)

end InfixCalculator
