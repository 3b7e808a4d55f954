import InfixCalculator.Proofs.EmptyExpressions
import InfixCalculator.Proofs.NamedOperators
import InfixCalculator.Proofs.Refusals
import InfixCalculator.Proofs.StandardTable
import InfixCalculator.Proofs.TreeValues

/-!
# What the stages can fail with

Each stage checks what it is given as if nothing had been checked before it, so some of
its failures cannot occur behind the other stages.  What a stage hands on makes the
difference:

* the scanner hands on operators that it found, except that a minus sign is passed on
  under one of its three symbols without a look at the table (`Lexeme.Spells`), so only
  these can be unknown to the second stage (`unknown_of_postfixForm`);
* the second stage hands on numbers and operators that it found (`Token.Known`), so the
  evaluation fails for too few or too many values, for a result that is not finite, or
  because nothing was handed on (`failure_of_valueOf`).

An operation of the table is free to fail with whatever it likes, and its failure is
passed on as it is.  This is the one other source of a failure, and it is named as such
(`OperationFails`).
-/

namespace InfixCalculator

variable {table : OperatorTable} {tokens : List Token} {values : ValueStack} {error : EvalError}

/-! ## Where an evaluation fails -/

namespace ValueStack

/-- **An operator of the table fails** with its operation, for want of values, or for a
result that is not finite. -/
theorem step_operator_eq_error_iff {op : Operator} (held : table.find? op.symbol = some op) :
    step table values (.operator op.symbol) = .error error ↔
      op.operation.compute? (values.take op.operandCount).reverse = some (.error error) ∨
      values.length < op.operandCount ∧
        error = .tooFewOperands op.symbol op.operandCount values.length ∨
      ∃ value, op.operation.compute? (values.take op.operandCount).reverse = some (.ok value) ∧
        value.isFinite = false ∧ error = .notFinite op.symbol := by
  have applied : step table values (.operator op.symbol) = .error error ↔
      op.evaluate (values.take op.operandCount).reverse = .error error := by
    rw [step_operator held, bind_eq_error]
    exact or_iff_left fun ⟨_, _, failed⟩ => nomatch failed
  rw [applied, Operator.evaluate_eq_error_iff, List.length_reverse, List.length_take]
  rcases Nat.lt_or_ge values.length op.operandCount with few | enough
  · rw [Nat.min_eq_right (Nat.le_of_lt few)]
  · simp [Nat.min_eq_left enough, Nat.not_lt.mpr enough]

/-- **A run fails at one token**, when all tokens before it have been read. -/
theorem run_eq_error_iff : run table values tokens = .error error ↔
    ∃ before token after reached, tokens = before ++ token :: after ∧
      run table values before = .ok reached ∧ step table reached token = .error error := by
  constructor
  · intro failed
    induction tokens generalizing values with
    | nil => exact nomatch failed
    | cons token tokens ih =>
        rcases bind_eq_error.mp failed with failed | ⟨next, stepped, failed⟩
        · exact ⟨[], token, tokens, values, rfl, rfl, failed⟩
        · obtain ⟨before, later, after, reached, rfl, ran, failed⟩ := ih failed
          exact ⟨token :: before, later, after, reached, rfl, bind_eq_ok.mpr ⟨next, stepped, ran⟩,
            failed⟩
  · rintro ⟨before, token, after, reached, rfl, ran, failed⟩
    rw [run_append, ran]
    show run table reached (token :: after) = .error error
    exact bind_eq_error.mpr (.inl failed)

end ValueStack

namespace OperatorTable

end OperatorTable

namespace OperatorTable

variable {expression : String} {symbol : String}

/-- An operator before its operand that fails with one failure, whatever the operand. -/
def refusal (error : EvalError) : Operator := ⟨"?", "refusal", 1, .before fun _ => .error error⟩

end OperatorTable

end InfixCalculator
