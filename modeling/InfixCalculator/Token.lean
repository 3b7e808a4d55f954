import InfixCalculator.Number.Text

/-!
# Tokens

The words of an expression, in infix order as they are read and in postfix
order as they are evaluated.
-/

namespace InfixCalculator

/-- A word of an expression. -/
inductive Token where
  /-- A number. -/
  | number (value : Float)
  /-- An operator, by its symbol in the operator table. -/
  | operator (symbol : String)
  /-- An opening parenthesis. -/
  | opening
  /-- A closing parenthesis. -/
  | closing
deriving DecidableEq

namespace Token

/-- The text of a token. -/
def text : Token → String
  | number value => Number.text value
  | operator symbol => symbol
  | opening => "("
  | closing => ")"

/-- The text of a sequence of tokens: their texts, divided by single spaces. -/
def sequenceText : List Token → String
  | [] => ""
  | [token] => token.text
  | token :: tokens => token.text ++ " " ++ sequenceText tokens

end Token

end InfixCalculator
