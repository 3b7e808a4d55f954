import InfixCalculator.Number.Text

/-!
# What can go wrong

An expression can fail to be read, or an expression that was read can fail to
have a value.  Each failure is a cause with the data that its message names.
Positions count the characters of the expression without spaces and tabs.

## Main definitions

* `SyntaxError`, `EvalError` — the failures of reading and of evaluating.
* `CalculationError` — either of the two.
* `UnknownOperator` — a symbol that an operator table does not hold.
* `bind_eq_ok`, `bind_eq_error` — what a computation in two parts comes to.
-/

namespace InfixCalculator

/-- Why an expression cannot be read. -/
inductive SyntaxError where
  /-- A character that is no operator of the table. -/
  | illegalCharacter (index : Nat) (character : Char)
  /-- Digits with more than one point among them. -/
  | invalidNumber (index : Nat) (literal : String)
  /-- An operator where a sign or an operator before a value still waits for its
  operand, or a sign at the end. -/
  | missingOperand (index : Nat)
  /-- An operator on the wrong side of a value. -/
  | misplacedOperator (index : Nat) (symbol : String)
  /-- A closing parenthesis without an opening one. -/
  | unmatchedClosing
  /-- An opening parenthesis without a closing one. -/
  | unmatchedOpening
  /-- A symbol that is not in the operator table. -/
  | unknownOperator (symbol : String)
deriving DecidableEq, Repr

namespace SyntaxError

/-- The text that reports a failure to read. -/
def message : SyntaxError → String
  | illegalCharacter index character =>
      s!"Error at index {index}: Illegal character '{character}'."
  | invalidNumber index literal => s!"Error at index {index}: Invalid number '{literal}'."
  | missingOperand index => s!"Error at index {index}: Unary operator is missing its operand."
  | misplacedOperator index symbol =>
      s!"Error at index {index}: Operator '{symbol}' is not allowed here."
  | unmatchedClosing => "Error: Mismatched parentheses, too many right parentheses."
  | unmatchedOpening => "Error: Mismatched parentheses, too many left parentheses."
  | unknownOperator symbol => s!"Error: Unknown operator '{symbol}'."

/-- Whether the parentheses are at fault. -/
def concernsParentheses : SyntaxError → Bool
  | unmatchedClosing | unmatchedOpening => true
  | _ => false

end SyntaxError

/-- Why a sequence of tokens in postfix order has no value. -/
inductive EvalError where
  /-- There are no tokens. -/
  | nothingToEvaluate
  /-- The values that are left do not make up one result. -/
  | valuesLeft (remaining : Nat)
  /-- An operator that finds fewer values than it has operands. -/
  | tooFewOperands (symbol : String) (expected found : Nat)
  /-- A symbol that is not in the operator table. -/
  | unknownOperator (symbol : String)
  /-- A division or a remainder by zero. -/
  | divisionByZero
  /-- A factorial of something that is not a natural number. -/
  | factorialDomain (value : Float)
  /-- An operator whose result is an infinity or not a number. -/
  | notFinite (symbol : String)
deriving DecidableEq, Repr

namespace EvalError

/-- The text that reports a failure to evaluate. -/
def message : EvalError → String
  | nothingToEvaluate => "Error: Nothing to evaluate."
  | valuesLeft remaining =>
      s!"Error: Malformed expression, {remaining} values left after evaluation."
  | tooFewOperands symbol expected found =>
      s!"Error: Operator '{symbol}' expects {expected} operand(s) but found {found}."
  | unknownOperator symbol => s!"Error: Unknown operator '{symbol}'."
  | divisionByZero => "Error: Division by zero."
  | factorialDomain value =>
      "Error: Factorial is only defined for non-negative whole numbers, but found "
        ++ Number.text value ++ "."
  | notFinite symbol =>
      s!"Error: Operator '{symbol}' produced a result that is not a finite number."

end EvalError

/-- Why an expression has no value. -/
inductive CalculationError where
  /-- It cannot be read. -/
  | reading (error : SyntaxError)
  /-- It can be read but not evaluated. -/
  | evaluating (error : EvalError)
deriving DecidableEq, Repr

/-- The text that reports why an expression has no value. -/
def CalculationError.message : CalculationError → String
  | reading error => error.message
  | evaluating error => error.message

/-- A symbol that was looked up in vain. -/
structure UnknownOperator where
  /-- The symbol. -/
  symbol : String
deriving DecidableEq, Repr

/-- The text that reports a symbol looked up in vain. -/
def UnknownOperator.message (error : UnknownOperator) : String :=
  "Unknown operator '" ++ error.symbol ++ "'."

/-! ## Outcomes

A computation in two parts goes on with the result of the first and ends with its
failure. -/

section Outcomes

universe u v w

variable {ε : Type u} {α β : Type v}

theorem bind_eq_ok {first : Except ε α} {second : α → Except ε β} {result : β} :
    first >>= second = .ok result ↔ ∃ a, first = .ok a ∧ second a = .ok result := by
  cases first <;> simp [bind, Except.bind]

theorem bind_eq_error {first : Except ε α} {second : α → Except ε β} {error : ε} :
    first >>= second = .error error ↔
      first = .error error ∨ ∃ a, first = .ok a ∧ second a = .error error := by
  cases first <;> simp [bind, Except.bind]

/-- Outcomes that are all results are told apart by these. -/
theorem eq_of_map_ok {results others : List α}
    (same : results.map (.ok : α → Except ε α) = others.map .ok) : results = others :=
  (List.map_inj_right fun _ _ => Except.ok.inj).mp same

/-- Only failures are renamed. -/
theorem mapError_eq_ok {ε' : Type w} {outcome : Except ε α} {rename : ε → ε'} {result : α} :
    outcome.mapError rename = .ok result ↔ outcome = .ok result := by
  cases outcome with
  | error e => constructor <;> intro h <;> cases h
  | ok a =>
      constructor
      · intro h
        exact congrArg _ (Except.ok.inj h)
      · intro h
        exact congrArg _ (Except.ok.inj h)

end Outcomes

end InfixCalculator
