import InfixCalculator.Operator.Table
import InfixCalculator.Token

/-!
# Expression trees

What an expression means is a tree: numbers at its leaves, an operator with its
operands at each node, and groups where parentheses stand.  A tree can be read
in the order in which an expression is written and in the order in which it is
evaluated, and it has a value of its own, found without any stack.

## Main definitions

* `Expression` — the trees.
* `Expression.inorder`, `Expression.postorder` — its two readings as tokens.
* `Expression.eval` — its value, or the first failure from the left.
* `Expression.UsesTable` — its operators are those of a table, each with as many
  operands as it has.
* `Expression.Grouped` — the tree is grouped as its precedences demand.
-/

namespace InfixCalculator

/-- **A tree of numbers, groups and operators.** -/
inductive Expression where
  /-- A number. -/
  | number (value : Float)
  /-- A parenthesised tree. -/
  | group (inner : Expression)
  /-- An operator before or after its operand. -/
  | unary (op : Operator) (operand : Expression)
  /-- An operator between its operands. -/
  | binary (op : Operator) (left right : Expression)

namespace Expression

/-- **The tokens of a tree as it is written.** -/
def inorder : Expression → List Token
  | number value => [.number value]
  | group inner => .opening :: inner.inorder ++ [.closing]
  | unary op operand =>
      match op.placement with
      | .before => .operator op.symbol :: operand.inorder
      | _ => operand.inorder ++ [.operator op.symbol]
  | binary op left right => left.inorder ++ .operator op.symbol :: right.inorder

theorem inorder_before {op : Operator} (h : op.placement = .before) (operand : Expression) :
    (unary op operand).inorder = .operator op.symbol :: operand.inorder := by
  simp [inorder, h]

theorem inorder_after {op : Operator} (h : op.placement ≠ .before) (operand : Expression) :
    (unary op operand).inorder = operand.inorder ++ [.operator op.symbol] := by
  cases hp : op.placement <;> simp [inorder, hp] at h ⊢

/-- **The tokens of a tree as it is evaluated**: operands from the left, then
their operator.  Groups leave no trace. -/
def postorder : Expression → List Token
  | number value => [.number value]
  | group inner => inner.postorder
  | unary op operand => operand.postorder ++ [.operator op.symbol]
  | binary op left right => left.postorder ++ right.postorder ++ [.operator op.symbol]

/-- **The value of a tree**: the operands from the left, then the operator, whose
result must be finite.  The first failure on the way is the failure of the
tree. -/
def eval : Expression → Except EvalError Float
  | number value => .ok value
  | group inner => inner.eval
  | unary op operand => do
      let value ← operand.eval
      op.evaluate [value]
  | binary op left right => do
      let leftValue ← left.eval
      let rightValue ← right.eval
      op.evaluate [leftValue, rightValue]

/-- **The operators of a tree are those of a table**, and each has as many
operands as it has in the tree. -/
def UsesTable (table : OperatorTable) : Expression → Prop
  | number _ => True
  | group inner => inner.UsesTable table
  | unary op operand =>
      table.find? op.symbol = some op ∧ op.operandCount = 1 ∧ operand.UsesTable table
  | binary op left right =>
      table.find? op.symbol = some op ∧ op.operandCount = 2 ∧
        left.UsesTable table ∧ right.UsesTable table

/-- The operator at the root; a number and a group have none. -/
def root? : Expression → Option Operator
  | number _ | group _ => none
  | unary op _ | binary op _ _ => some op

/-- An operand on the left of an operator is grouped as its precedence demands
if the operator waits for the operator at its root. -/
def FitsLeftOf (op : Operator) (operand : Expression) : Prop :=
  ∀ earlier, operand.root? = some earlier → op.waitsFor earlier = true

/-- An operand on the right of an operator is grouped as its precedence demands
if the operator at its root does not wait for the operator. -/
def FitsRightOf (op : Operator) (operand : Expression) : Prop :=
  ∀ later, operand.root? = some later → later.waitsFor op = false

/-- **The tree is grouped as its precedences demand**, at every operator and on
each side that has an operand. -/
def Grouped : Expression → Prop
  | number _ => True
  | group inner => inner.Grouped
  | unary op operand =>
      operand.Grouped ∧
        match op.placement with
        | .before => FitsRightOf op operand
        | _ => FitsLeftOf op operand
  | binary op left right =>
      left.Grouped ∧ right.Grouped ∧ FitsLeftOf op left ∧ FitsRightOf op right

theorem grouped_before {op : Operator} (h : op.placement = .before) (operand : Expression) :
    (unary op operand).Grouped ↔ operand.Grouped ∧ FitsRightOf op operand := by
  simp [Grouped, h]

theorem grouped_after {op : Operator} (h : op.placement ≠ .before) (operand : Expression) :
    (unary op operand).Grouped ↔ operand.Grouped ∧ FitsLeftOf op operand := by
  cases hp : op.placement <;> simp [Grouped, hp] at h ⊢

instance decidableFitsLeftOf (op : Operator) (operand : Expression) :
    Decidable (FitsLeftOf op operand) :=
  inferInstanceAs (Decidable (∀ earlier ∈ operand.root?, op.waitsFor earlier = true))

instance decidableFitsRightOf (op : Operator) (operand : Expression) :
    Decidable (FitsRightOf op operand) :=
  inferInstanceAs (Decidable (∀ later ∈ operand.root?, later.waitsFor op = false))

instance decidableGrouped : (e : Expression) → Decidable e.Grouped
  | number _ => inferInstanceAs (Decidable True)
  | group inner => decidableGrouped inner
  | unary op operand =>
      have := decidableGrouped operand
      if h : op.placement = .before then decidable_of_iff' _ (grouped_before h operand)
      else decidable_of_iff' _ (grouped_after h operand)
  | binary op left right =>
      have := decidableGrouped left
      have := decidableGrouped right
      inferInstanceAs (Decidable
        (left.Grouped ∧ right.Grouped ∧ FitsLeftOf op left ∧ FitsRightOf op right))

/-- The tree has no groups. -/
def GroupFree : Expression → Prop
  | number _ => True
  | group _ => False
  | unary _ operand => operand.GroupFree
  | binary _ left right => left.GroupFree ∧ right.GroupFree

end Expression

end InfixCalculator
