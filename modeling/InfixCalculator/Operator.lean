import InfixCalculator.Error

/-!
# Operators

An operator has a symbol, a name, a precedence and an operation.  The operation
says where the operator stands — before its operand, between two or after one —
and what it computes, so the number of operands, the placement and the
associativity of an operator always fit together.

## Main definitions

* `Operator` and `Operation` — an operator and what it does.
* `Operator.waitsFor` — which of two neighbouring operators is applied first.
* `Operator.apply` — applies an operator to a list of operands, the left one
  first.
* `Operator.evaluate` — the same, but an operator may only give a finite result.
-/

namespace InfixCalculator

/-- Which of two neighbouring operators of one precedence is applied first: the
left one or the right one. -/
inductive Associativity where
  /-- The left one is applied first. -/
  | left
  /-- The right one is applied first. -/
  | right
deriving DecidableEq, Repr

/-- Where an operator stands. -/
inductive Placement where
  /-- Before its operand. -/
  | before
  /-- Between its two operands. -/
  | between
  /-- After its operand. -/
  | after
deriving DecidableEq, Repr

/-- The word for an operator of a placement. -/
def Placement.word : Placement → String
  | before => "prefix"
  | between => "binary"
  | after => "postfix"

/-- What an operator does: its placement and what it computes from its
operands. -/
inductive Operation where
  /-- Stands before its operand. -/
  | before (compute : Float → Except EvalError Float)
  /-- Stands between its operands. -/
  | between (associativity : Associativity) (compute : Float → Float → Except EvalError Float)
  /-- Stands after its operand. -/
  | after (compute : Float → Except EvalError Float)

namespace Operation

/-- Where an operator with this operation stands. -/
def placement : Operation → Placement
  | before _ => .before
  | between _ _ => .between
  | after _ => .after

/-- Operators before their operand wait for what follows, so they are applied
from the right; those after it are applied from the left. -/
def associativity : Operation → Associativity
  | before _ => .right
  | between associativity _ => associativity
  | after _ => .left

/-- How many operands an operation has. -/
def operandCount : Operation → Nat
  | between _ _ => 2
  | before _ | after _ => 1

/-- An operation computes from its first operands and passes over the others;
`none` if there are too few. -/
def compute? : Operation → List Float → Option (Except EvalError Float)
  | before compute, operand :: _ => some (compute operand)
  | between _ compute, left :: right :: _ => some (compute left right)
  | after compute, operand :: _ => some (compute operand)
  | _, _ => none

theorem compute?_eq_none_iff {operation : Operation} {operands : List Float} :
    operation.compute? operands = none ↔ operands.length < operation.operandCount := by
  cases operation with
  | before compute | after compute => cases operands <;> simp [compute?, operandCount]
  | between associativity compute =>
      match operands with
      | [] | [_] | _ :: _ :: _ => simp [compute?, operandCount]

end Operation

/-- An operator of an operator table. -/
structure Operator where
  /-- The symbol that stands for the operator in expressions and tables. -/
  symbol : String
  /-- What the operator is called. -/
  name : String
  /-- The operator with the higher precedence is applied first. -/
  precedence : Nat
  /-- What the operator does. -/
  operation : Operation

namespace Operator

/-- Where the operator stands. -/
def placement (op : Operator) : Placement := op.operation.placement

/-- How the operator is grouped with a neighbour of its own precedence. -/
def associativity (op : Operator) : Associativity := op.operation.associativity

/-- How many operands the operator has. -/
def operandCount (op : Operator) : Nat := op.operation.operandCount

theorem operandCount_eq_one {op : Operator} (h : op.placement ≠ .between) :
    op.operandCount = 1 := by
  obtain ⟨symbol, name, precedence, operation⟩ := op
  cases operation with
  | before compute | after compute => rfl
  | between associativity compute => exact absurd rfl h

theorem operandCount_eq_two {op : Operator} (h : op.placement = .between) :
    op.operandCount = 2 := by
  obtain ⟨symbol, name, precedence, operation⟩ := op
  cases operation with
  | between associativity compute => rfl
  | before compute | after compute => exact nomatch h

theorem before_or_after {op : Operator} (count : op.operandCount = 1) :
    op.placement = .before ∨ op.placement = .after := by
  obtain ⟨symbol, name, precedence, operation⟩ := op
  cases operation with
  | before compute => exact .inl rfl
  | between associativity compute => exact nomatch count
  | after compute => exact .inr rfl

/-- **Whether an operator waits for an earlier one**: the earlier operator is
applied first if it has the higher precedence, and among equals if the later
one is left-associative. -/
def waitsFor (op earlier : Operator) : Bool :=
  op.precedence < earlier.precedence ∨
    op.precedence = earlier.precedence ∧ op.associativity = .left

theorem waitsFor_iff {op earlier : Operator} :
    op.waitsFor earlier = true ↔
      op.precedence < earlier.precedence ∨
        op.precedence = earlier.precedence ∧ op.associativity = .left := by
  simp [waitsFor]

/-- Applies an operator to operands in the order in which they stand.  Operands
beyond those it has are passed over. -/
def apply (op : Operator) (operands : List Float) : Except EvalError Float :=
  match op.operation.compute? operands with
  | some outcome => outcome
  | none => .error (.tooFewOperands op.symbol op.operandCount operands.length)

/-- **Applies an operator inside a computation**, where a result that is not
finite is a failure of the operator. -/
def evaluate (op : Operator) (operands : List Float) : Except EvalError Float := do
  let value ← op.apply operands
  if value.isFinite then return value else throw (.notFinite op.symbol)

/-- **An operator fails** with its operation, for want of operands, or for a result that is
not finite. -/
theorem evaluate_eq_error_iff {op : Operator} {operands : List Float} {error : EvalError} :
    op.evaluate operands = .error error ↔
      op.operation.compute? operands = some (.error error) ∨
      operands.length < op.operandCount ∧
        error = .tooFewOperands op.symbol op.operandCount operands.length ∨
      ∃ value, op.operation.compute? operands = some (.ok value) ∧ value.isFinite = false ∧
        error = .notFinite op.symbol := by
  rw [evaluate, apply, operandCount, ← Operation.compute?_eq_none_iff]
  cases op.operation.compute? operands with
  | none => simp [bind, Except.bind, @eq_comm _ error]
  | some outcome =>
      cases outcome with
      | error own => simp [bind, Except.bind]
      | ok value =>
          cases finite : value.isFinite with
          | true => simp [bind, Except.bind, pure, Except.pure, finite]
          | false =>
              simp [bind, Except.bind, throw, throwThe, MonadExceptOf.throw, finite,
                @eq_comm _ error]

end Operator

end InfixCalculator
