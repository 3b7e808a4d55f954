import InfixCalculator.Operator.Standard
import InfixCalculator.Proofs.StackHeight
import InfixCalculator.Proofs.TreeValues

/-!
# A value stands for its sequence

A step takes its operands from the top of the stack and looks at nothing below them.  So
a run that succeeds on some values succeeds on more: above any values it goes through the
same steps, and these values are still there at the end (`ValueStack.run_above`).

A sequence that has a value therefore does to any stack what the value itself does: it
puts the value there.  Nothing around the two can tell them apart, whether it goes on to
a value or to a failure.
-/

namespace InfixCalculator

variable {table : OperatorTable}

namespace ValueStack

/-- A step leaves what lies below its values as it is. -/
theorem step_above {values next : ValueStack} {token : Token}
    (stepped : step table values token = .ok next) (below : ValueStack) :
    step table (values ++ below) token = .ok (next ++ below) := by
  rcases step_eq_ok stepped with ⟨value, rfl, rfl⟩ | ⟨op, value, rfl, found, evaluated, rfl⟩
  · rfl
  · have enough := Operator.operandCount_le_length evaluated
    rw [List.length_reverse, List.length_take] at enough
    have all : op.operandCount ≤ values.length := by omega
    rw [step_operator found, List.take_append_of_le_length all, evaluated,
      List.drop_append_of_le_length all]
    rfl

/-- **A run leaves what lies below its values as it is.** -/
theorem run_above {values final : ValueStack} {tokens : List Token}
    (ran : run table values tokens = .ok final) (below : ValueStack) :
    run table (values ++ below) tokens = .ok (final ++ below) := by
  induction tokens generalizing values with
  | nil =>
      obtain rfl := Except.ok.inj ran
      rfl
  | cons token tokens ih =>
      obtain ⟨next, stepped, ran⟩ := bind_eq_ok.mp ran
      exact bind_eq_ok.mpr ⟨next ++ below, step_above stepped below, ih ran⟩

end ValueStack

namespace OperatorTable

variable {inner : List Token} {value : Float}

/-- What has a value puts it on any stack. -/
theorem run_eq_cons_of_valueOf (valued : table.valueOf inner = .ok value) (values : ValueStack) :
    ValueStack.run table values inner = .ok (value :: values) :=
  ValueStack.run_above (run_of_valueOf valued) values

theorem ne_nil_of_valueOf (valued : table.valueOf inner = .ok value) : inner ≠ [] := by
  rintro rfl
  exact nomatch valued

/-- **A sequence can stand for a number everywhere exactly if the number is its value.**
Whatever surrounds the two, well formed or not, has the same value around both or fails
in the same way. -/
theorem valueOf_substitution (table : OperatorTable) (inner : List Token) (value : Float) :
    table.valueOf inner = .ok value ↔
      ∀ before after, table.valueOf (before ++ inner ++ after) =
        table.valueOf (before ++ [Token.number value] ++ after) := by
  constructor
  · intro valued before after
    have same (values : ValueStack) :
        ValueStack.run table values inner = ValueStack.run table values [.number value] :=
      run_eq_cons_of_valueOf valued values
    have some : (before ++ inner ++ after).isEmpty = false := by
      simp [ne_nil_of_valueOf valued]
    have someNumber : (before ++ [Token.number value] ++ after).isEmpty = false := by simp
    rw [valueOf, valueOf, some, someNumber]
    simp only [ValueStack.run_append, same]
  · intro same
    have alone : table.valueOf inner = table.valueOf [.number value] := by
      simpa using same [] []
    exact alone.trans rfl

/-- In `0 5 2 - / *` the difference may be written as the number `3`: behind both of them
the product finds one operand only. -/
example : OperatorTable.standard.valueOf
      ([.number 0] ++ [.number 5, .number 2, .operator "b-"] ++ [.operator "/", .operator "*"]) =
    .error (.tooFewOperands "*" 2 1) := by
  decide +kernel

end OperatorTable

end InfixCalculator
