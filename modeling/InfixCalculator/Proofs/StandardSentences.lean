import InfixCalculator.Calculator
import InfixCalculator.Proofs.GroupedTrees
import InfixCalculator.Proofs.SentenceTrees
import InfixCalculator.Proofs.StandardTable
import InfixCalculator.Proofs.TreeValues

/-!
# Sentences with the standard operators

An operator before its operand is put on the stack like any other, although its
operand is still to come, and would take a pending operator off the stack if it
had to wait for it.  With the standard operators this does not happen, for two
reasons that only work together.  The precedences exclude most pairs of
neighbours; the scanner excludes those that are left, since the leading minus
stands at the start only and nothing but a sign may follow an operator that waits
for its operand.

So every sentence that is scanned has a grouped tree, which is what the shunting
yard makes of it, and the evaluation of a tree fails for the sake of its operands
only.
-/

namespace InfixCalculator

/-! ## Neighbours -/

/-- What the precedences of the standard operators say about neighbours. -/
theorem waitsFor_of_mem_standardOperators :
    ∀ first ∈ standardOperators, ∀ later ∈ standardOperators,
      (later.placement = .before → later.symbol = Minus.sign.symbol →
        later.waitsFor first = false) ∧
      (later.placement = .before → later.symbol ≠ Minus.leading.symbol →
        first.placement = .between → later.waitsFor first = false) ∧
      (first.placement = .after → later.placement ≠ .before → later.waitsFor first = true) := by
  decide

/-- **What the scanner lets follow a token keeps a grouping.** -/
theorem keepsGrouping_of_admitted {a b : Token}
    (admitted : b.Admitted .standard (a.context .standard)) : KeepsGrouping .standard a b := by
  rintro s t first later rfl rfl foundFirst foundLater
  obtain ⟨op, found, allowed, pending, leading⟩ := admitted
  obtain rfl := Option.some.inj (foundLater.symm.trans found)
  obtain rfl := OperatorTable.symbol_eq_of_find? foundLater
  rw [Token.context_operator foundFirst] at allowed pending leading
  obtain ⟨sign, inner, after⟩ := waitsFor_of_mem_standardOperators first
    (mem_standardOperators foundFirst) later (mem_standardOperators foundLater)
  refine ⟨?_, after⟩
  intro before
  cases placement : first.placement with
  | before =>
      -- Only a sign may follow an operator that waits for its operand.
      rw [placement] at pending
      exact sign before (pending rfl)
  | between =>
      -- The leading minus stands at the start only.
      rw [placement] at leading
      exact inner before (fun h => nomatch leading h) placement
  | after =>
      rw [before, placement] at allowed
      exact nomatch allowed

theorem isChain_keepsGrouping {previous : Context} {tokens : List Token}
    (admitted : AdmittedFrom .standard previous tokens) :
    tokens.IsChain (KeepsGrouping .standard) := by
  induction tokens generalizing previous with
  | nil => exact .nil
  | cons a tokens ih =>
      cases tokens with
      | nil => exact .singleton a
      | cons b tokens =>
          obtain ⟨-, later⟩ := admitted
          exact List.isChain_cons_cons.mpr ⟨keepsGrouping_of_admitted later.1, ih later⟩

/-! ## Failures -/

/-- **A tree of standard operators fails for the sake of its operands only.** -/
theorem Expression.ofOperands_of_eval {e : Expression} (uses : e.UsesTable .standard)
    {error : EvalError} (failed : e.eval = .error error) : error.ofOperands = true := by
  induction e with
  | number value => exact nomatch failed
  | group inner ih => exact ih uses failed
  | unary op operand ih =>
      obtain ⟨found, count, usesOperand⟩ := uses
      rcases bind_eq_error.mp failed with failed | ⟨x, -, failed⟩
      · exact ih usesOperand failed
      · have length : [x].length = op.operandCount := count.symm
        exact ofOperands_of_evaluate (mem_standardOperators found) length failed
  | binary op left right ihLeft ihRight =>
      obtain ⟨found, count, usesLeft, usesRight⟩ := uses
      rcases bind_eq_error.mp failed with failed | ⟨x, -, failed⟩
      · exact ihLeft usesLeft failed
      rcases bind_eq_error.mp failed with failed | ⟨y, -, failed⟩
      · exact ihRight usesRight failed
      · have length : [x, y].length = op.operandCount := count.symm
        exact ofOperands_of_evaluate (mem_standardOperators found) length failed

/-! ## Sentences -/

/-- Every sentence that is scanned has a grouped tree. -/
theorem exists_tree_of_sentence {text : String} {tokens : List Token}
    (scanned : OperatorTable.standard.items text = tokens.map .ok)
    (sentence : Derives .standard .expression tokens) :
    ∃ tree, Expression.GroupedAs .standard tokens tree := by
  have admitted := admittedFrom_of_itemsFrom minusPlaced_standard scanned
  exact readsAsTree_of_derives sentence (isChain_keepsGrouping admitted)

/-- **A sentence never fails for the way it is written.**  It is put into postfix
order along a grouped tree, and its operands are all that can keep it from having
a value. -/
theorem calculate_sentence (expression : String) (tokens : List Token)
    (scanned : OperatorTable.standard.items (withoutBlanks expression) = tokens.map .ok)
    (sentence : Derives .standard .expression tokens) :
    (∃ tree : Expression, tree.inorder = tokens ∧ tree.UsesTable .standard ∧ tree.Grouped ∧
      OperatorTable.standard.postfixForm expression = .ok tree.postorder) ∧
    ((∃ value, calculate expression = .ok value) ∨
      calculate expression = .error (.evaluating .divisionByZero) ∨
      (∃ value, calculate expression = .error (.evaluating (.factorialDomain value))) ∨
      ∃ symbol, calculate expression = .error (.evaluating (.notFinite symbol))) := by
  obtain ⟨tree, uses, grouped, rfl⟩ := exists_tree_of_sentence scanned sentence
  have ordered : OperatorTable.standard.postfixForm expression = .ok tree.postorder := by
    rw [OperatorTable.postfixForm, scanned, OperatorTable.postfixOrder_map_ok]
    exact Expression.arrange_inorder uses grouped
  have value : calculate expression = tree.eval.mapError .evaluating :=
    Expression.calculate_of_postfixForm uses ordered
  refine ⟨⟨tree, rfl, uses, grouped, ordered⟩, ?_⟩
  rw [value]
  cases result : tree.eval with
  | ok x => exact .inl ⟨x, rfl⟩
  | error e =>
      have operands := Expression.ofOperands_of_eval uses result
      cases e with
      | divisionByZero => exact .inr (.inl rfl)
      | factorialDomain x => exact .inr (.inr (.inl ⟨x, rfl⟩))
      | notFinite symbol => exact .inr (.inr (.inr ⟨symbol, rfl⟩))
      | nothingToEvaluate | valuesLeft | tooFewOperands | unknownOperator =>
          exact nomatch operands

/-- In `-7%~-3! / (4 - 4)` every kind of operator stands, and the division fails. -/
theorem calculate_sentence_division :
    ∃ tokens, OperatorTable.standard.items (withoutBlanks "-7%~-3! / (4 - 4)") = tokens.map .ok ∧
      Derives .standard .expression tokens ∧
      (∃ tree : Expression, tree.inorder = tokens ∧ tree.UsesTable .standard ∧ tree.Grouped ∧
        OperatorTable.standard.postfixForm "-7%~-3! / (4 - 4)" = .ok tree.postorder) ∧
      calculate "-7%~-3! / (4 - 4)" = .error (.evaluating .divisionByZero) := by
  have number (value : Float) : Derives .standard .operand [.number value] := .number value
  have factorial : Derives .standard .operand
      ([.operator "~", .operator "s-", .number 3] ++ [.operator "!"]) :=
    .after ⟨_, rfl, rfl⟩ (.before ⟨_, rfl, rfl⟩ (.before ⟨_, rfl, rfl⟩ (number 3)))
  have difference : Derives .standard .expression ([.number 4] ++ [.operator "b-", .number 4]) :=
    .between ⟨_, rfl, rfl⟩ (.single (number 4)) (number 4)
  have remainder : Derives .standard .expression
      ([.operator "u-", .number 7] ++ .operator "%" ::
        ([.operator "~", .operator "s-", .number 3] ++ [.operator "!"])) :=
    .between ⟨_, rfl, rfl⟩ (.single (.before ⟨_, rfl, rfl⟩ (number 7))) factorial
  have quotient : OperatorTable.standard.Stands .between "/" := ⟨_, rfl, rfl⟩
  have sentence := Derives.between quotient remainder (.group difference)
  have scanned : OperatorTable.standard.items (withoutBlanks "-7%~-3! / (4 - 4)") =
      [.operator "u-", .number 7, .operator "%", .operator "~", .operator "s-", .number 3,
        .operator "!", .operator "/", .opening, .number 4, .operator "b-", .number 4,
        .closing].map .ok := by
    decide +kernel
  exact ⟨_, scanned, sentence, (calculate_sentence _ _ scanned sentence).1, by decide +kernel⟩

end InfixCalculator
