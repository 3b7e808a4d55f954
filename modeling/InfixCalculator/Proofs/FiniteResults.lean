import InfixCalculator.Proofs.EmptyExpressions
import InfixCalculator.Proofs.Overflow
import InfixCalculator.Proofs.PostfixTrees

/-!
# Results that are not finite

A number is put on the stack as it is, finite or not, and only the results of operators
are checked.  So a value that is not finite has never been computed: the sequence is this
one number (`eq_number_of_valueOf`).

An expression with such a value applies no operator either.  Its postfix order has all
that it writes but for the parentheses, so a literal is the only piece left, and a literal
is read as a finite double unless it overflows.
-/

namespace InfixCalculator

/-- The result of an operator inside a computation is finite. -/
theorem Operator.isFinite_of_evaluate {op : Operator} {operands : List Float} {value : Float}
    (evaluated : op.evaluate operands = .ok value) : value.isFinite = true := by
  obtain ⟨result, -, checked⟩ := bind_eq_ok.mp evaluated
  split at checked
  next finite =>
    obtain rfl := Except.ok.inj checked
    exact finite
  next => cases checked

/-- **A tree with an operator has a finite value.** -/
theorem Expression.eq_number_of_eval {e : Expression} {value : Float} (plain : e.GroupFree)
    (valued : e.eval = .ok value) (unchecked : value.isFinite = false) : e = number value := by
  cases e with
  | number x =>
      obtain rfl := Except.ok.inj valued
      rfl
  | group inner => exact plain.elim
  | unary op operand =>
      obtain ⟨x, -, evaluated⟩ := bind_eq_ok.mp valued
      exact absurd (Operator.isFinite_of_evaluate evaluated) (by simp [unchecked])
  | binary op left right =>
      obtain ⟨x, -, rest⟩ := bind_eq_ok.mp valued
      obtain ⟨y, -, evaluated⟩ := bind_eq_ok.mp rest
      exact absurd (Operator.isFinite_of_evaluate evaluated) (by simp [unchecked])

/-- Whether a piece is a parenthesis. -/
def Lexeme.isBracket : Lexeme → Bool
  | opening | closing => true
  | _ => false

/-- A piece is a parenthesis if its token is one. -/
theorem Lexeme.Spells.isBracket_iff {table : OperatorTable} {piece : Lexeme} {token : Token}
    (spells : piece.Spells table token) :
    (!piece.isBracket) = true ↔ token.bracket?.isNone = true := by
  cases spells <;> simp [isBracket, Token.bracket?]

/-- The pieces and the tokens still belong to each other without the parentheses. -/
theorem spelled_withoutBrackets {table : OperatorTable} {pieces : List Lexeme}
    {tokens : List Token} (spelled : List.Forall₂ (Lexeme.Spells table) pieces tokens) :
    List.Forall₂ (Lexeme.Spells table) (pieces.filter fun piece => !piece.isBracket)
      (withoutBrackets tokens) :=
  List.rel_filter (fun _ _ spells => spells.isBracket_iff) spelled

namespace OperatorTable

variable {table : OperatorTable}

/-- **A sequence with a value that is not finite** is this number. -/
theorem eq_number_of_valueOf {tokens : List Token} {value : Float}
    (valued : table.valueOf tokens = .ok value) (unchecked : value.isFinite = false) :
    tokens = [.number value] := by
  obtain ⟨e, encoded, valuedTree⟩ := exists_encodedBy_of_valueOf valued
  obtain rfl := Expression.eq_number_of_eval encoded.groupFree valuedTree unchecked
  exact encoded.postorder_eq.symm

/-- An expression that comes to one number is a literal, but for parentheses. -/
theorem exists_literal_of_postfixForm {expression : String} {value : Float}
    (ordered : table.postfixForm expression = .ok [.number value]) :
    ∃ literal decimal,
      (Lexeme.cut (withoutBlanks expression).toList).filter (fun piece => !piece.isBracket) =
        [.numeral literal] ∧
      Decimal.ofText? literal = some decimal ∧ decimal.toFloat = value := by
  obtain ⟨tokens, scanned, perm, -⟩ := exists_tokens_of_postfixOrder ordered
  have alone := List.singleton_perm.mp perm
  have spelled := spelled_withoutBrackets (table.spelled_of_items scanned)
  rw [← alone] at spelled
  obtain ⟨piece, rest, spells, nothing, pieces⟩ := List.forall₂_cons_right_iff.mp spelled
  cases nothing
  cases spells with
  | numeral read => exact ⟨_, _, pieces, read, rfl⟩

/-- **A value that is not finite is written, not computed.**  A sequence that has one is
this number alone, whatever the operators of the table do.  An expression that has one is
a literal that overflows, in any number of parentheses, and its value is infinity. -/
theorem calculate_not_finite (table : OperatorTable) :
    (∀ tokens value, table.valueOf tokens = .ok value → value.isNaN ∨ value.isInf →
      tokens = [.number value]) ∧
    ∀ expression value, table.calculate expression = .ok value → value.isNaN ∨ value.isInf →
      table.postfixForm expression = .ok [.number value] ∧
      ∃ literal decimal,
        (Lexeme.cut (withoutBlanks expression).toList).filter (fun piece => !piece.isBracket) =
          [.numeral literal] ∧
        Decimal.ofText? literal = some decimal ∧ decimal.Overflows ∧
        value = (Binary64.infinite false).toFloat := by
  refine ⟨fun tokens value valued notFinite => ?_, fun expression value calculated notFinite => ?_⟩
  · exact eq_number_of_valueOf valued ((FloatBits.isFinite_eq_false_iff value).mpr notFinite)
  · have unchecked := (FloatBits.isFinite_eq_false_iff value).mpr notFinite
    obtain ⟨out, ordered, valued⟩ := bind_eq_ok.mp calculated
    obtain rfl := eq_number_of_valueOf (mapError_eq_ok.mp valued) unchecked
    have same := mapError_eq_ok.mp ordered
    obtain ⟨literal, decimal, pieces, read, rfl⟩ := exists_literal_of_postfixForm same
    have overflows : decimal.Overflows := by
      by_contra small
      rw [Decimal.isFinite_toFloat_iff.mpr small] at unchecked
      cases unchecked
    exact ⟨same, literal, decimal, pieces, read, overflows, Decimal.toFloat_of_overflows overflows⟩

/-- The least natural number that overflows, in parentheses, has the value infinity, and so
has the sequence of this value alone. -/
theorem calculate_not_finite_threshold :
    let infinity := (Binary64.infinite false).toFloat
    let threshold := Nat.toDigits 10 (0x3FFFFFFFFFFFFF <<< 970)
    let expression := String.ofList ('(' :: threshold ++ [' ', ')'])
    infinity.isInf = true ∧ standard.valueOf [.number infinity] = .ok infinity ∧
      standard.calculate expression = .ok infinity ∧
      standard.postfixForm expression = .ok [.number infinity] ∧
      ∃ literal decimal,
        (Lexeme.cut (withoutBlanks expression).toList).filter (fun piece => !piece.isBracket) =
          [.numeral literal] ∧
        Decimal.ofText? literal = some decimal ∧ decimal.Overflows ∧
        infinity = (Binary64.infinite false).toFloat := by
  intro infinity threshold expression
  -- The text is computed by lemmas, for decoding its bytes one by one would take long.
  have text : (withoutBlanks expression).toList = '(' :: threshold ++ [')'] := by
    rw [withoutBlanks, String.toList_ofList, String.toList_ofList]
    decide +kernel
  have isInf : infinity.isInf = true := by decide +kernel
  have calculated : standard.calculate expression = .ok infinity := by
    rw [calculate, postfixForm, items, scanner, text]
    decide +kernel
  exact ⟨isInf, rfl, calculated,
    (calculate_not_finite .standard).2 expression infinity calculated (.inr isInf)⟩

end OperatorTable

end InfixCalculator
