import InfixCalculator.Operator.Table
import InfixCalculator.Token
import InfixCalculator.Token.Lexeme

/-!
# Scanning

The pieces of an expression become tokens one after the other.  What a piece
may be depends on the piece before it: an operator between two values, or after
one, needs a value before it, an operator before a value must not have one, and
a minus sign has one of three meanings.  The first piece that is no token ends
the scan with a failure.

## Main definitions

* `Context` — what the last token leaves behind for the next.
* `Minus.resolve?` — which minus a written sign is.
* `readLexeme` — the token of one piece in its context, or the failure.
* `Scanner` — a scan under way, `Scanner.next` for its next item and
  `Scanner.items` for all that are still to come.
* `OperatorTable.items` — all items of a text.
-/

namespace InfixCalculator

/-- What the tokens read so far leave behind for the next one. -/
inductive Context where
  /-- No token has been read. -/
  | start
  /-- A number, or an operator after a value, which makes a value again. -/
  | number
  /-- An operator between values. -/
  | operator
  /-- An opening parenthesis. -/
  | opening
  /-- A closing parenthesis. -/
  | closing
  /-- A sign, or an operator before a value, that waits for its operand. -/
  | pending
deriving DecidableEq, Repr

namespace Context

/-- Whether the tokens read so far end with a value. -/
def endsValue : Context → Bool
  | number | closing => true
  | _ => false

end Context

namespace Minus

/-- **Which minus a written sign is**, from what stands before it and the
character after it.  After a value it is the subtraction.  Otherwise it needs
something to follow: the sign that starts an expression covers what follows,
unless that is another sign, and any other sign belongs to the next value. -/
def resolve? (previous : Context) (next : Option Char) : Option Minus :=
  if previous.endsValue then some .subtraction
  else match next with
    | none => none
    | some character =>
        if previous = .start ∧ character ≠ '-' then some .leading else some .sign

/-- What a minus leaves behind. -/
def context : Minus → Context
  | subtraction => .operator
  | leading | sign => .pending

end Minus

namespace Placement

/-- Whether an operator may follow: one before its operand must not have a
value before it, the others must. -/
def allowedAfter : Placement → Context → Bool
  | before, context => !context.endsValue
  | between, context | after, context => context.endsValue

/-- What an operator leaves behind. -/
def context : Placement → Context
  | before => .pending
  | between => .operator
  | after => .number

end Placement

/-- The token of a character that stands for an operator of the table.  It is
not allowed where a sign or another operator waits for its operand. -/
def readSymbol (table : OperatorTable) (context : Context) (index : Nat) (character : Char) :
    Except SyntaxError (Token × Context) :=
  match table.find? (String.singleton character) with
  | none => .error (.illegalCharacter index character)
  | some op =>
      if context = .pending then .error (.missingOperand index)
      else if op.placement.allowedAfter context then
        .ok (.operator op.symbol, op.placement.context)
      else .error (.misplacedOperator index op.symbol)

/-- **The token of one piece** that starts at `index`, in the context that the
tokens before it leave and with the character `next` after it; with it comes the
context that it leaves. -/
def readLexeme (table : OperatorTable) (context : Context) (index : Nat) (next : Option Char) :
    Lexeme → Except SyntaxError (Token × Context)
  | .numeral literal =>
      match Decimal.ofText? literal with
      | some decimal => .ok (.number decimal.toFloat, .number)
      | none => .error (.invalidNumber index (String.ofList literal))
  | .opening => .ok (.opening, .opening)
  | .closing => .ok (.closing, .closing)
  | .minus =>
      match Minus.resolve? context next with
      | some minus => .ok (.operator minus.symbol, minus.context)
      | none => .error (.missingOperand index)
  | .symbol character => readSymbol table context index character

/-- The first character of the pieces that are still to be read. -/
def firstChar (lexemes : List Lexeme) : Option Char :=
  lexemes.head?.bind fun lexeme => lexeme.chars.head?

/-- A scan under way. -/
structure Scanner where
  /-- The table in which operators are looked up. -/
  table : OperatorTable
  /-- The pieces that are still to be read. -/
  rest : List Lexeme
  /-- How many characters have been read. -/
  index : Nat := 0
  /-- What the tokens read so far leave behind. -/
  context : Context := .start

namespace Scanner

/-- **The next item of a scan**, a token or the failure that ends the scan, and
the scan after it.  After its last item a scan has no items. -/
def next (scanner : Scanner) : Option (Except SyntaxError Token) × Scanner :=
  match scanner.rest with
  | [] => (none, scanner)
  | lexeme :: rest =>
      match readLexeme scanner.table scanner.context scanner.index (firstChar rest) lexeme with
      | .ok (token, context) =>
          (some (.ok token),
            { scanner with
              rest := rest
              index := scanner.index + lexeme.length
              context := context })
      | .error error => (some (.error error), { scanner with rest := [] })

/-- The items of the first `count` calls of `next`. -/
def nextItems : Nat → Scanner → List (Option (Except SyntaxError Token))
  | 0, _ => []
  | count + 1, scanner => scanner.next.1 :: nextItems count scanner.next.2

/-- The items of pieces that start at `index`, by structural recursion on the
pieces. -/
def itemsFrom (table : OperatorTable) (index : Nat) (context : Context) :
    List Lexeme → List (Except SyntaxError Token)
  | [] => []
  | lexeme :: rest =>
      match readLexeme table context index (firstChar rest) lexeme with
      | .ok (token, context) =>
          .ok token :: itemsFrom table (index + lexeme.length) context rest
      | .error error => [.error error]

/-- **All items that a scan still has**: tokens, and at the end the failure if
one ends it. -/
def items (scanner : Scanner) : List (Except SyntaxError Token) :=
  itemsFrom scanner.table scanner.index scanner.context scanner.rest

/-- The next item is the first of those still to come. -/
theorem next_fst (scanner : Scanner) : scanner.next.1 = scanner.items.head? := by
  obtain ⟨table, rest, index, context⟩ := scanner
  cases rest with
  | nil => rfl
  | cons lexeme rest =>
      simp only [next, items, itemsFrom]
      split <;> rfl

/-- After the next item the others are still to come. -/
theorem items_next_snd (scanner : Scanner) : scanner.next.2.items = scanner.items.tail := by
  obtain ⟨table, rest, index, context⟩ := scanner
  cases rest with
  | nil => rfl
  | cons lexeme rest =>
      simp only [next, items, itemsFrom]
      split <;> rfl

end Scanner

namespace OperatorTable

/-- The scan of a text from its start. -/
def scanner (table : OperatorTable) (text : String) : Scanner :=
  { table, rest := Lexeme.cut text.toList }

/-- **The items of a text**: its tokens, and at the end the failure if a piece
of it is no token. -/
def items (table : OperatorTable) (text : String) : List (Except SyntaxError Token) :=
  (table.scanner text).items

end OperatorTable

end InfixCalculator
