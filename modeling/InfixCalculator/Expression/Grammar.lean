import InfixCalculator.Operator.Table
import InfixCalculator.Token

/-!
# The grammar of expressions

An expression is a sequence of operands with an operator between each two of
them.  An operand is a number or an expression in parentheses, with any number
of operators before it and after it.  The grammar says which sequences of tokens
are expressions and nothing about how they are grouped.

## Main definitions

* `OperatorTable.Stands` — a symbol stands for an operator of a placement.
* `Derives` — the sequences of tokens that are expressions, and those that are
  operands.
-/

namespace InfixCalculator

/-- A symbol stands for an operator of the table that has the given placement. -/
def OperatorTable.Stands (table : OperatorTable) (placement : Placement) (symbol : String) :
    Prop :=
  ∃ op, table.find? symbol = some op ∧ op.placement = placement

/-- The two kinds of phrases of the grammar. -/
inductive Phrase where
  /-- Operands with operators between them. -/
  | expression
  /-- A number or a group, with operators before and after it. -/
  | operand
deriving DecidableEq, Repr

/-- **The sequences of tokens that are phrases of a kind.** -/
inductive Derives (table : OperatorTable) : Phrase → List Token → Prop where
  /-- A number is an operand. -/
  | number (value : Float) : Derives table .operand [.number value]
  /-- An expression in parentheses is an operand. -/
  | group {tokens : List Token} (inner : Derives table .expression tokens) :
      Derives table .operand (.opening :: tokens ++ [.closing])
  /-- An operand with an operator before it is an operand. -/
  | before {symbol : String} {tokens : List Token} (stands : table.Stands .before symbol)
      (operand : Derives table .operand tokens) :
      Derives table .operand (.operator symbol :: tokens)
  /-- An operand with an operator after it is an operand. -/
  | after {symbol : String} {tokens : List Token} (stands : table.Stands .after symbol)
      (operand : Derives table .operand tokens) :
      Derives table .operand (tokens ++ [.operator symbol])
  /-- An operand is an expression. -/
  | single {tokens : List Token} (operand : Derives table .operand tokens) :
      Derives table .expression tokens
  /-- An expression goes on with an operator and an operand. -/
  | between {symbol : String} {first second : List Token} (stands : table.Stands .between symbol)
      (left : Derives table .expression first) (right : Derives table .operand second) :
      Derives table .expression (first ++ .operator symbol :: second)

end InfixCalculator
