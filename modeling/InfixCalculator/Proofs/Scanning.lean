import InfixCalculator.Expression.Grammar
import InfixCalculator.Token.Scanner

/-!
# What the scanner lets pass

The scanner sees one token at a time and knows of those before it only the
context that they leave.  So what it lets pass is a condition on neighbours:
`Token.Admitted` says what a token must be in a context, `AdmittedFrom` that
every token of a sequence is so in the context of the one before it.

A written minus sign has no symbol of its own, and its three meanings need not
have the placements that their names suggest; where they do (`MinusPlaced`), the
context that a token leaves can be read off the table (`Token.context`).
-/

namespace InfixCalculator

/-- The first character of the pieces of a text is that of the text. -/
@[simp] theorem firstChar_cut (text : List Char) : firstChar (Lexeme.cut text) = text.head? := by
  cases text with
  | nil => rfl
  | cons c rest =>
      cases digit : c.isDigit with
      | true => rw [Lexeme.cut_digit digit]; rfl
      | false => rw [Lexeme.cut_other digit]; simp [firstChar]

/-- A numeral ends where no digit and no point follows. -/
theorem Lexeme.cut_numeral {first : Char} {digits rest : List Char}
    (digit : first.isDigit = true) (run : digits.all continuesNumeral = true)
    (stops : ∀ c ∈ rest.head?, continuesNumeral c = false) :
    cut (first :: digits ++ rest) = numeral (first :: digits) :: cut rest := by
  have inside : ∀ c ∈ digits, continuesNumeral c = true := by simpa using run
  have kept : rest.takeWhile continuesNumeral = [] ∧ rest.dropWhile continuesNumeral = rest := by
    cases rest with
    | nil => exact ⟨rfl, rfl⟩
    | cons c rest => simp [stops c rfl]
  rw [List.cons_append, cut_digit digit, List.takeWhile_append_of_pos inside,
    List.dropWhile_append_of_pos inside, kept.1, kept.2, List.append_nil]

namespace Scanner

theorem itemsFrom_cons_ok {table : OperatorTable} {index : Nat} {context after : Context}
    {lexeme : Lexeme} {rest : List Lexeme} {token : Token}
    (read : readLexeme table context index (firstChar rest) lexeme = .ok (token, after)) :
    itemsFrom table index context (lexeme :: rest) =
      .ok token :: itemsFrom table (index + lexeme.length) after rest := by
  rw [itemsFrom, read]

/-- A scan without failure has read its first piece. -/
theorem itemsFrom_cons_eq_map_ok {table : OperatorTable} {index : Nat} {context : Context}
    {lexeme : Lexeme} {rest : List Lexeme} {tokens : List Token}
    (scanned : itemsFrom table index context (lexeme :: rest) = tokens.map .ok) :
    ∃ token after more,
      readLexeme table context index (firstChar rest) lexeme = .ok (token, after) ∧
      tokens = token :: more ∧
      itemsFrom table (index + lexeme.length) after rest = more.map .ok := by
  cases read : readLexeme table context index (firstChar rest) lexeme with
  | error e =>
      rw [itemsFrom, read] at scanned
      cases tokens with
      | nil => cases scanned
      | cons token more => cases (List.cons.inj scanned).1
  | ok result =>
      obtain ⟨token, after⟩ := result
      rw [itemsFrom_cons_ok read] at scanned
      cases tokens with
      | nil => cases scanned
      | cons first more =>
          obtain ⟨same, scannedRest⟩ := List.cons.inj scanned
          obtain rfl := Except.ok.inj same
          exact ⟨token, after, more, rfl, rfl, scannedRest⟩

end Scanner

/-! ## Contexts and neighbours -/

/-- Where the operator for a minus sign should stand. -/
def Minus.placement : Minus → Placement
  | subtraction => .between
  | leading | sign => .before

/-- Every minus sign stands for an operator of its own placement. -/
def OperatorTable.MinusPlaced (table : OperatorTable) : Prop :=
  ∀ minus : Minus, table.Stands minus.placement minus.symbol

namespace Token

/-- The context that a token leaves. -/
def context (table : OperatorTable) : Token → Context
  | number _ => .number
  | opening => .opening
  | closing => .closing
  | operator symbol => ((table.find? symbol).map (·.placement.context)).getD .operator

theorem context_operator {table : OperatorTable} {symbol : String} {op : Operator}
    (found : table.find? symbol = some op) :
    (operator symbol).context table = op.placement.context := by
  simp [context, found]

/-- **What the scanner asks of a token** in the context of the tokens before it.
Numbers and parentheses may stand anywhere. -/
def Admitted (table : OperatorTable) (previous : Context) : Token → Prop
  | operator symbol =>
      ∃ op, table.find? symbol = some op ∧ op.placement.allowedAfter previous = true ∧
        (previous = .pending → symbol = Minus.sign.symbol) ∧
        (symbol = Minus.leading.symbol → previous = .start)
  | _ => True

end Token

/-- Every token of a sequence may stand where it does. -/
def AdmittedFrom (table : OperatorTable) : Context → List Token → Prop
  | _, [] => True
  | previous, token :: tokens =>
      token.Admitted table previous ∧ AdmittedFrom table (token.context table) tokens

/-- The symbol of a leading minus is not a character of an expression. -/
theorem singleton_ne_leading (c : Char) : String.singleton c ≠ Minus.leading.symbol := by
  intro h
  have lengths := congrArg String.length h
  rw [String.length_singleton] at lengths
  exact absurd lengths (by decide)

theorem Minus.admitted_of_resolve? {table : OperatorTable} (placed : table.MinusPlaced)
    {previous : Context} {next : Option Char} {minus : Minus}
    (resolved : resolve? previous next = some minus) :
    (Token.operator minus.symbol).Admitted table previous ∧
      (Token.operator minus.symbol).context table = minus.context := by
  obtain ⟨op, found, placement⟩ := placed minus
  refine ⟨⟨op, found, ?_⟩, ?_⟩
  · rw [placement]
    unfold resolve? at resolved
    split at resolved
    next value =>
      obtain rfl := Option.some.inj resolved
      refine ⟨value, fun pending => ?_, fun h => absurd h (by decide)⟩
      rw [pending] at value
      exact nomatch value
    next value =>
      have noValue : (!previous.endsValue) = true := by simpa using value
      split at resolved
      next => exact nomatch resolved
      next character =>
        split at resolved
        next starts =>
          obtain rfl := Option.some.inj resolved
          refine ⟨noValue, fun pending => ?_, fun _ => starts.1⟩
          exact absurd (starts.1.symm.trans pending) (by decide)
        next =>
          obtain rfl := Option.some.inj resolved
          exact ⟨noValue, fun _ => rfl, fun h => absurd h (by decide)⟩
  · rw [Token.context_operator found, placement]
    cases minus <;> rfl

/-- **A character that is read is an operator of the table** that may stand where it does. -/
theorem readSymbol_eq_ok {table : OperatorTable} {context after : Context} {index : Nat}
    {character : Char} {token : Token}
    (read : readSymbol table context index character = .ok (token, after)) :
    ∃ op, table.find? (String.singleton character) = some op ∧ context ≠ .pending ∧
      op.placement.allowedAfter context = true ∧
      token = .operator (String.singleton character) ∧ after = op.placement.context := by
  unfold readSymbol at read
  split at read
  next => cases read
  next op found =>
    split at read
    next => cases read
    next idle =>
      split at read
      next allowed =>
        obtain ⟨rfl, rfl⟩ := Prod.mk.inj (Except.ok.inj read)
        exact ⟨op, found, idle, allowed, by rw [OperatorTable.symbol_eq_of_find? found], rfl⟩
      next => cases read

/-- **A token that is read is admitted**, and leaves its context. -/
theorem admitted_of_readLexeme {table : OperatorTable} (placed : table.MinusPlaced)
    {previous after : Context} {index : Nat} {next : Option Char} {lexeme : Lexeme}
    {token : Token} (read : readLexeme table previous index next lexeme = .ok (token, after)) :
    token.Admitted table previous ∧ token.context table = after := by
  cases lexeme with
  | numeral literal =>
      rw [readLexeme] at read
      split at read
      next => obtain ⟨rfl, rfl⟩ := Prod.mk.inj (Except.ok.inj read); exact ⟨trivial, rfl⟩
      next => exact nomatch read
  | minus =>
      rw [readLexeme] at read
      split at read
      next resolved =>
        obtain ⟨rfl, rfl⟩ := Prod.mk.inj (Except.ok.inj read)
        exact Minus.admitted_of_resolve? placed resolved
      next => exact nomatch read
  | opening =>
      obtain ⟨rfl, rfl⟩ := Prod.mk.inj (Except.ok.inj read)
      exact ⟨trivial, rfl⟩
  | closing =>
      obtain ⟨rfl, rfl⟩ := Prod.mk.inj (Except.ok.inj read)
      exact ⟨trivial, rfl⟩
  | symbol character =>
      obtain ⟨op, found, notPending, allowed, rfl, rfl⟩ := readSymbol_eq_ok read
      refine ⟨⟨op, found, allowed, fun h => absurd h notPending, fun h => ?_⟩,
        Token.context_operator found⟩
      exact absurd h (singleton_ne_leading character)

/-- **A scan without failure lets only admitted tokens pass.** -/
theorem admittedFrom_of_itemsFrom {table : OperatorTable} (placed : table.MinusPlaced)
    {index : Nat} {previous : Context} {lexemes : List Lexeme} {tokens : List Token}
    (scanned : Scanner.itemsFrom table index previous lexemes = tokens.map .ok) :
    AdmittedFrom table previous tokens := by
  induction lexemes generalizing index previous tokens with
  | nil =>
      cases tokens with
      | nil => trivial
      | cons token tokens => exact nomatch scanned
  | cons lexeme rest ih =>
      obtain ⟨token, after, more, read, rfl, scannedRest⟩ :=
        Scanner.itemsFrom_cons_eq_map_ok scanned
      obtain ⟨admitted, rfl⟩ := admitted_of_readLexeme placed read
      exact ⟨admitted, ih scannedRest⟩

end InfixCalculator
