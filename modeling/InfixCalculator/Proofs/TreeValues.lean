import InfixCalculator.Calculator
import InfixCalculator.Expression

/-!
# The value of a tree on the stack

A sequence in postfix order is evaluated with a stack, a tree without one.  On
the tokens of a tree they agree: the stack ends with the value of the tree on top
of whatever was there before, or fails with the first failure of the tree.  The
values below take no part, so the statement is made for any of them.
-/

namespace InfixCalculator

/-- An operator of the table takes its operands from the top of the stack. -/
theorem ValueStack.step_operator {table : OperatorTable} {op : Operator}
    (found : table.find? op.symbol = some op) (values : ValueStack) :
    ValueStack.step table values (.operator op.symbol) = (do
      let value ← op.evaluate (values.take op.operandCount).reverse
      return value :: values.drop op.operandCount) := by
  rw [ValueStack.step, found]

theorem ValueStack.run_singleton (table : OperatorTable) (values : ValueStack) (token : Token) :
    ValueStack.run table values [token] = ValueStack.step table values token := by
  rw [ValueStack.run_cons]
  cases ValueStack.step table values token <;> rfl

namespace Expression

theorem postorder_ne_nil (e : Expression) : e.postorder ≠ [] := by
  induction e with
  | number value => simp [postorder]
  | group inner ih => exact ih
  | unary op operand => simp [postorder]
  | binary op left right => simp [postorder]

/-- **The tokens of a tree put its value on the stack**, or fail as the tree
does. -/
theorem run_postorder {table : OperatorTable} {e : Expression} (uses : e.UsesTable table)
    (values : ValueStack) :
    ValueStack.run table values e.postorder = e.eval.map (· :: values) := by
  induction e generalizing values with
  | number value => rfl
  | group inner ih => exact ih uses values
  | unary op operand ih =>
      obtain ⟨found, count, usesOperand⟩ := uses
      rw [postorder, ValueStack.run_append, ih usesOperand, eval]
      cases operand.eval with
      | error e => rfl
      | ok value =>
          show ValueStack.run table (value :: values) [.operator op.symbol] = _
          rw [ValueStack.run_singleton, ValueStack.step_operator found, count]
          cases op.evaluate [value] <;> rfl
  | binary op left right ihLeft ihRight =>
      obtain ⟨found, count, usesLeft, usesRight⟩ := uses
      rw [postorder, List.append_assoc, ValueStack.run_append, ihLeft usesLeft, eval]
      cases left.eval with
      | error e => rfl
      | ok leftValue =>
          show ValueStack.run table (leftValue :: values)
            (right.postorder ++ [.operator op.symbol]) = _
          rw [ValueStack.run_append, ihRight usesRight]
          cases right.eval with
          | error e => rfl
          | ok rightValue =>
              show ValueStack.run table (rightValue :: leftValue :: values)
                [.operator op.symbol] = _
              rw [ValueStack.run_singleton, ValueStack.step_operator found, count]
              cases op.evaluate [leftValue, rightValue] <;> rfl

/-- **The value of the tokens of a tree is the value of the tree.** -/
theorem valueOf_postorder_eq_eval {table : OperatorTable} {e : Expression}
    (uses : e.UsesTable table) :
    table.valueOf e.postorder = e.eval := by
  have nonempty : e.postorder.isEmpty = false := by simp [postorder_ne_nil]
  rw [OperatorTable.valueOf, nonempty, run_postorder uses]
  cases e.eval <;> rfl

/-- An expression that is put into the postfix order of a tree has its value. -/
theorem calculate_of_postfixForm {table : OperatorTable} {e : Expression} {expression : String}
    (uses : e.UsesTable table) (ordered : table.postfixForm expression = .ok e.postorder) :
    table.calculate expression = e.eval.mapError .evaluating := by
  rw [OperatorTable.calculate, ordered, ← valueOf_postorder_eq_eval uses]
  rfl

end Expression

end InfixCalculator
