import InfixCalculator.Operator.Standard
import InfixCalculator.Proofs.Scanning
import Mathlib.Data.List.Basic

/-!
# The standard table

A table that is filled from a list holds under each symbol the last operator of
the list with that symbol.  For the standard table this turns a question about
what is found into one about fourteen operators, which can be decided.

The operators fail in two ways only, by a division by zero and by a factorial
outside its domain; inside a computation a result that is not finite is the third
(`EvalError.ofOperands`).  None of them depends on how an expression is written.
-/

namespace InfixCalculator

/-- **The last operator of a list is the one that is found**, before those that the
table held. -/
theorem OperatorTable.find?_insertAll (table : OperatorTable) (ops : List Operator)
    (symbol : String) :
    (table.insertAll ops).find? symbol =
      (ops.reverse.find? (·.symbol = symbol)).or (table.find? symbol) := by
  induction ops generalizing table with
  | nil => rfl
  | cons op ops ih =>
      show ((table.insert op).insertAll ops).find? symbol = _
      rw [ih, find?_insert, List.reverse_cons, List.find?_append, Option.or_assoc]
      congr 1
      by_cases h : symbol = op.symbol
      · simp [h]
      · simp [h, Ne.symm h]

theorem mem_standardOperators {symbol : String} {op : Operator}
    (found : OperatorTable.standard.find? symbol = some op) : op ∈ standardOperators := by
  rw [OperatorTable.standard, OperatorTable.find?_insertAll, OperatorTable.find?_empty,
    Option.or_none] at found
  exact List.mem_reverse.mp (List.mem_of_find?_eq_some found)

/-- The standard table holds each minus sign with its own placement. -/
theorem minusPlaced_standard : OperatorTable.standard.MinusPlaced := by
  intro minus
  cases minus with
  | subtraction => exact ⟨_, rfl, rfl⟩
  | leading => exact ⟨_, rfl, rfl⟩
  | sign => exact ⟨_, rfl, rfl⟩

/-- A failure that is due to the operands of an operator and to nothing else. -/
def EvalError.ofOperands : EvalError → Bool
  | divisionByZero | factorialDomain _ | notFinite _ => true
  | _ => false

/-- Whatever an operation computes from its operands fails for their sake only. -/
def Operation.FailsForOperands : Operation → Prop
  | before compute | after compute =>
      ∀ operand error, compute operand = .error error → error.ofOperands = true
  | between _ compute =>
      ∀ left right error, compute left right = .error error → error.ofOperands = true

/-- The failures of an operation, for whatever operands, are all allowed. -/
def Operation.FailsOnlyWith (allowed : EvalError → Prop) : Operation → Prop
  | before compute | after compute =>
      ∀ operand error, compute operand = .error error → allowed error
  | between _ compute =>
      ∀ left right error, compute left right = .error error → allowed error

theorem Operation.failsForOperands_iff {operation : Operation} :
    operation.FailsForOperands ↔ operation.FailsOnlyWith (·.ofOperands = true) := by
  cases operation <;> rfl

theorem Operation.FailsOnlyWith.mono {operation : Operation} {allowed more : EvalError → Prop}
    (fails : operation.FailsOnlyWith allowed) (implied : ∀ error, allowed error → more error) :
    operation.FailsOnlyWith more := by
  cases operation with
  | before | after => exact fun operand error failed => implied error (fails operand error failed)
  | between =>
      exact fun left right error failed => implied error (fails left right error failed)

/-- All failures are allowed also of an operation that is applied to a list of operands. -/
theorem Operation.FailsOnlyWith.of_compute? {operation : Operation} {allowed : EvalError → Prop}
    (fails : operation.FailsOnlyWith allowed) {operands : List Float} {error : EvalError}
    (computed : operation.compute? operands = some (.error error)) : allowed error := by
  match operation, operands with
  | .before _, operand :: _ | .after _, operand :: _ =>
      exact fails operand error (Option.some.inj computed)
  | .between _ _, left :: right :: _ => exact fails left right error (Option.some.inj computed)
  | .before _, [] | .after _, [] | .between _ _, [] | .between _ _, [_] => exact nomatch computed

/-- The divisions fail on a zero divisor only. -/
theorem eq_divisionByZero_of_divide {left right : Float} {error : EvalError}
    (failed : Arithmetic.divide left right = .error error) : error = .divisionByZero := by
  unfold Arithmetic.divide at failed
  split at failed
  next => exact (Except.error.inj failed).symm
  next => exact nomatch failed

theorem eq_divisionByZero_of_modulo {left right : Float} {error : EvalError}
    (failed : Arithmetic.modulo left right = .error error) : error = .divisionByZero := by
  unfold Arithmetic.modulo at failed
  split at failed
  next => exact (Except.error.inj failed).symm
  next =>
    simp only at failed
    split at failed <;> exact nomatch failed

theorem factorial_eq_error_iff {operand : Float} {error : EvalError} :
    Arithmetic.factorial operand = .error error ↔
      exactNatural? operand = none ∧ error = .factorialDomain operand := by
  rw [Arithmetic.factorial]
  cases exactNatural? operand with
  | none => simp [eq_comm]
  | some n =>
      simp only [reduceCtorEq, false_and, iff_false]
      split <;> nofun

theorem exists_maximum (left right : Float) :
    ∃ value, Arithmetic.maximum left right = .ok value := by
  unfold Arithmetic.maximum
  split
  next => exact ⟨right, rfl⟩
  next => split <;> exact ⟨_, rfl⟩

theorem exists_minimum (left right : Float) :
    ∃ value, Arithmetic.minimum left right = .ok value := by
  unfold Arithmetic.minimum
  split
  next => exact ⟨right, rfl⟩
  next => split <;> exact ⟨_, rfl⟩

/-- **What a standard operation fails with**: the divisions on a zero divisor, the factorial
outside its domain, and no other operation at all. -/
theorem failsOnlyWith_of_mem_standardOperators :
    ∀ op ∈ standardOperators, op.operation.FailsOnlyWith fun error =>
      error = .divisionByZero ∨ ∃ operand, Arithmetic.factorial operand = .error error := by
  have total {compute : Float → Except EvalError Float} (h : ∀ x, ∃ value, compute x = .ok value)
      {allowed : EvalError → Prop} (x : Float) (error : EvalError)
      (failed : compute x = .error error) : allowed error := by
    obtain ⟨value, computed⟩ := h x
    exact nomatch computed.symm.trans failed
  simp only [standardOperators, List.forall_mem_cons, List.not_mem_nil, false_implies, implies_true,
    and_true]
  refine ⟨?add, ?subtract, ?multiply, ?divide, ?leading, ?power, ?modulo, ?maximum, ?minimum,
    ?average, ?factorial, ?negation, ?digitSum, ?sign⟩
  case divide => exact fun _ _ _ failed => .inl (eq_divisionByZero_of_divide failed)
  case modulo => exact fun _ _ _ failed => .inl (eq_divisionByZero_of_modulo failed)
  case factorial => exact fun operand _ failed => .inr ⟨operand, failed⟩
  case maximum => exact fun left => total (exists_maximum left)
  case minimum => exact fun left => total (exists_minimum left)
  case leading | negation | digitSum | sign => exact total fun _ => ⟨_, rfl⟩
  case add | subtract | multiply | power | average => exact fun _ => total fun _ => ⟨_, rfl⟩

theorem failsForOperands_of_mem_standardOperators :
    ∀ op ∈ standardOperators, op.operation.FailsForOperands := by
  intro op standard
  refine Operation.failsForOperands_iff.mpr
    ((failsOnlyWith_of_mem_standardOperators op standard).mono ?_)
  rintro error (rfl | ⟨operand, failed⟩)
  · rfl
  · rw [(factorial_eq_error_iff.mp failed).2]
    rfl

/-- An operation that fails for its operands only does so for any of them. -/
theorem ofOperands_of_compute? {operation : Operation} (fails : operation.FailsForOperands)
    {operands : List Float} {error : EvalError}
    (computed : operation.compute? operands = some (.error error)) : error.ofOperands = true :=
  (Operation.failsForOperands_iff.mp fails).of_compute? computed

/-- **A standard operator with all its operands fails for their sake only.** -/
theorem ofOperands_of_evaluate {op : Operator} (standard : op ∈ standardOperators)
    {operands : List Float} (count : operands.length = op.operandCount) {error : EvalError}
    (failed : op.evaluate operands = .error error) : error.ofOperands = true := by
  rcases Operator.evaluate_eq_error_iff.mp failed with own | ⟨few, -⟩ | ⟨value, -, -, rfl⟩
  · exact ofOperands_of_compute? (failsForOperands_of_mem_standardOperators op standard) own
  · exact absurd few (Nat.not_lt_of_ge (Nat.le_of_eq count.symm))
  · rfl

end InfixCalculator
