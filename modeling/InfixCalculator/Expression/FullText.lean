import InfixCalculator.Expression
import InfixCalculator.Token.Lexeme

/-!
# Expressions written in full

A tree can be written so that nothing is left to precedences: every operator
with its operands stands in parentheses of its own.  Blanks may stand anywhere.

## Main definitions

* `IsLiteral` — a text is a number as it can be written in an expression.
* `Expression.WrittenInFull` — a text is a tree with all parentheses and without
  blanks.
-/

namespace InfixCalculator

/-- A text is a literal of a number: it starts with a digit, goes on with digits
and points, has at most one point and reads as the number. -/
def IsLiteral (literal : List Char) (value : Float) : Prop :=
  (∃ first rest, literal = first :: rest ∧ first.isDigit = true ∧
    rest.all Lexeme.continuesNumeral = true) ∧
  ∃ decimal, Decimal.ofText? literal = some decimal ∧ decimal.toFloat = value

/-- A character can be written for an operator of its own symbol: it is no
digit, point, parenthesis, minus sign or blank. -/
def isOperatorChar (c : Char) : Bool :=
  !c.isDigit && c ∉ ['.', '(', ')', '-', ' ', '\t']

/-- The character that is written for an operator.  The subtraction and the sign
of a value are both written as a minus sign. -/
inductive WrittenAs : Operator → Char → Prop where
  /-- The subtraction. -/
  | subtraction {op : Operator} (symbol : op.symbol = Minus.subtraction.symbol)
      (placement : op.placement = .between) : WrittenAs op '-'
  /-- The sign of a value. -/
  | sign {op : Operator} (symbol : op.symbol = Minus.sign.symbol)
      (placement : op.placement = .before) : WrittenAs op '-'
  /-- An operator whose symbol is one character. -/
  | character {op : Operator} {c : Char} (symbol : op.symbol = String.singleton c)
      (allowed : isOperatorChar c = true) : WrittenAs op c

namespace Expression

/-- **A text is a tree written in full**, with every operator and its operands
in parentheses of their own. -/
inductive WrittenInFull : Expression → List Char → Prop where
  /-- A number is written as a literal. -/
  | number {value : Float} {literal : List Char} (reads : IsLiteral literal value) :
      WrittenInFull (number value) literal
  /-- An operator before its operand. -/
  | before {op : Operator} {c : Char} {operand : Expression} {text : List Char}
      (written : WrittenAs op c) (placement : op.placement = .before)
      (inner : WrittenInFull operand text) :
      WrittenInFull (unary op operand) ('(' :: c :: text ++ [')'])
  /-- An operator after its operand. -/
  | after {op : Operator} {c : Char} {operand : Expression} {text : List Char}
      (written : WrittenAs op c) (placement : op.placement = .after)
      (inner : WrittenInFull operand text) :
      WrittenInFull (unary op operand) ('(' :: text ++ [c, ')'])
  /-- An operator between its operands. -/
  | between {op : Operator} {c : Char} {left right : Expression} {first second : List Char}
      (written : WrittenAs op c) (placement : op.placement = .between)
      (innerLeft : WrittenInFull left first) (innerRight : WrittenInFull right second) :
      WrittenInFull (binary op left right) ('(' :: first ++ c :: second ++ [')'])

end Expression

end InfixCalculator
