import InfixCalculator.Proofs.PipelineFailures

/-!
# The failure of an evaluation is its first

A sequence need not be well formed to be evaluated.  What can be wrong with its form is
decided by counting: behind the tokens that have been read there are as many values as
there are numbers among them, less the operators with two operands (`height_eq_sub`).  So
an operator that is unknown or that finds too few values, and a parenthesis, can be seen
from the tokens alone (`OperatorTable.OutOfPlace`); the values matter only to what an
operator makes of its operands (`OperatorTable.FailsOn`).

Both are checked at each token, and nothing is looked at behind the first failure
(`OperatorTable.FailsFirst`).  If there is none, then only the number of values at the end
can be wrong.
-/

namespace InfixCalculator

variable {table : OperatorTable} {before tokens : List Token} {values : ValueStack}
  {token : Token} {error : EvalError}

namespace OperatorTable

/-- **A token is out of place** behind those before it: an operator that the table does not
hold, an operator with more operands than there are values, or a parenthesis. -/
inductive OutOfPlace (table : OperatorTable) (before : List Token) : Token → EvalError → Prop where
  /-- An operator is not in the table. -/
  | unknown {symbol : String} (missing : table.find? symbol = none) :
      OutOfPlace table before (.operator symbol) (.unknownOperator symbol)
  /-- There are fewer values than the operator has operands. -/
  | tooFew {op : Operator} {found : Nat} (held : table.find? op.symbol = some op)
      (reached : height table before = found) (few : found < op.operandCount) :
      OutOfPlace table before (.operator op.symbol)
        (.tooFewOperands op.symbol op.operandCount found)
  /-- A parenthesis has no place in postfix order at all. -/
  | parenthesis {token : Token} {remaining : Nat} (bracket : token.bracket? ≠ none)
      (reached : height table before = remaining) :
      OutOfPlace table before token (.valuesLeft remaining)

/-- **An operator fails on the values that it finds**: its operation fails, or its result is
not finite. -/
inductive FailsOn (table : OperatorTable) (values : ValueStack) : Token → EvalError → Prop where
  /-- The operation fails. -/
  | operation {op : Operator} {error : EvalError} (held : table.find? op.symbol = some op)
      (computed : op.operation.compute? (values.take op.operandCount).reverse =
        some (.error error)) :
      FailsOn table values (.operator op.symbol) error
  /-- The result is an infinity or not a number. -/
  | notFinite {op : Operator} {value : Float} (held : table.find? op.symbol = some op)
      (computed : op.operation.compute? (values.take op.operandCount).reverse = some (.ok value))
      (infinite : value.isFinite = false) :
      FailsOn table values (.operator op.symbol) (.notFinite op.symbol)

/-- **The first token of a sequence that fails**, when all those before it have been read. -/
def FailsFirst (table : OperatorTable) (tokens : List Token) (error : EvalError) : Prop :=
  ∃ before token after values, tokens = before ++ token :: after ∧
    ValueStack.run table [] before = .ok values ∧
    (table.OutOfPlace before token error ∨ table.FailsOn values token error)

end OperatorTable

namespace ValueStack

/-! ## One token -/

/-- **A token fails** where it is out of place, or on the values that it finds. -/
theorem step_eq_error_iff (reached : height table before = values.length) :
    step table values token = .error error ↔
      table.OutOfPlace before token error ∨ table.FailsOn values token error := by
  constructor
  · intro failed
    cases token with
    | number value => cases failed
    | opening | closing =>
        obtain rfl := Except.error.inj failed
        exact .inl (.parenthesis nofun reached)
    | operator symbol =>
        cases held : table.find? symbol with
        | none =>
            rw [step, held] at failed
            obtain rfl := Except.error.inj failed
            exact .inl (.unknown held)
        | some op =>
            obtain rfl := OperatorTable.symbol_eq_of_find? held
            rcases (step_operator_eq_error_iff held).mp failed with
              own | ⟨few, rfl⟩ | ⟨value, computed, infinite, rfl⟩
            · exact .inr (.operation held own)
            · exact .inl (.tooFew held reached few)
            · exact .inr (.notFinite held computed infinite)
  · rintro (misplaced | fails)
    · cases misplaced with
      | unknown missing => rw [step, missing]
      | tooFew held found few =>
          obtain rfl : values.length = _ := by exact_mod_cast reached.symm.trans found
          exact (step_operator_eq_error_iff held).mpr (.inr (.inl ⟨few, rfl⟩))
      | parenthesis bracket found =>
          obtain rfl : values.length = _ := by exact_mod_cast reached.symm.trans found
          cases token with
          | number | operator => exact absurd rfl bracket
          | opening | closing => rfl
    · cases fails with
      | operation held own => exact (step_operator_eq_error_iff held).mpr (.inl own)
      | notFinite held computed infinite =>
          exact (step_operator_eq_error_iff held).mpr (.inr (.inr ⟨_, computed, infinite, rfl⟩))

/-! ## The whole sequence -/

/-- The values that have been read are as many as the height of their tokens. -/
theorem height_of_run (ran : run table [] before = .ok values) :
    height table before = values.length := by
  simpa using (length_run ran).symm

/-- **A run fails with its first failure.** -/
theorem run_eq_error_iff_failsFirst :
    run table [] tokens = .error error ↔ table.FailsFirst tokens error := by
  constructor
  · intro failed
    obtain ⟨before, token, after, reached, split, ran, failed⟩ := run_eq_error_iff.mp failed
    exact ⟨before, token, after, reached, split, ran,
      (step_eq_error_iff (height_of_run ran)).mp failed⟩
  · rintro ⟨before, token, after, reached, split, ran, failed⟩
    exact run_eq_error_iff.mpr ⟨before, token, after, reached, split, ran,
      (step_eq_error_iff (height_of_run ran)).mpr failed⟩

/-- Nothing that has been read is out of place. -/
theorem not_outOfPlace_of_run {earlier later : List Token}
    (ran : run table [] (earlier ++ token :: later) = .ok values) :
    ¬ table.OutOfPlace earlier token error := by
  intro misplaced
  rw [run_append] at ran
  obtain ⟨reached, ranEarlier, ran⟩ := bind_eq_ok.mp ran
  obtain ⟨next, stepped, -⟩ := bind_eq_ok.mp ran
  have failed := (step_eq_error_iff (height_of_run ranEarlier)).mpr (.inl misplaced)
  exact nomatch stepped.symm.trans failed

end ValueStack

namespace OperatorTable

/-- Operations that fail for their operands only never fail as a token out of place does. -/
theorem FailsOn.ofOperands (fails : table.FailsOn values token error)
    (forOperands : ∀ op ∈ table.operators, op.operation.FailsForOperands) :
    error.ofOperands = true := by
  cases fails with
  | operation held computed =>
      exact ofOperands_of_compute? (forOperands _ (find?_eq_some_iff.mp held).1) computed
  | notFinite => rfl

/-- **The failure of an evaluation is its first.**  As long as there is none, the values are
as many as the numbers less the operators with two operands, one at least once a token has
been read, and no token has been out of place.  A sequence fails if it is empty, with the
first of its tokens that fails, or with two values or more that are left at the end. -/
theorem valueOf_first_failure (table : OperatorTable) (tokens : List Token) :
    (∀ before values, ValueStack.run table [] before = .ok values →
      height table before = values.length ∧
      height table before =
        (before.countP Token.isNumber : Int) - before.countP (Token.isBinary table) ∧
      (before ≠ [] → 1 ≤ values.length) ∧
      ∀ earlier token later, before = earlier ++ token :: later →
        ∀ error, ¬ table.OutOfPlace earlier token error) ∧
    (∀ error, table.valueOf tokens = .error error ↔
      tokens = [] ∧ error = .nothingToEvaluate ∨
      table.FailsFirst tokens error ∨
      ∃ values remaining, ValueStack.run table [] tokens = .ok values ∧
        height table tokens = (remaining : Nat) ∧ 2 ≤ remaining ∧
        error = .valuesLeft remaining) ∧
    ∀ values token error, table.FailsOn values token error →
      (∀ op ∈ table.operators, op.operation.FailsForOperands) → error.ofOperands = true := by
  refine ⟨fun before values ran => ⟨?_, height_eq_sub before, ?_, ?_⟩, fun error => ?_,
    fun _ _ _ => FailsOn.ofOperands⟩
  · exact ValueStack.height_of_run ran
  · exact fun some => List.length_pos_of_ne_nil (ValueStack.ne_nil_of_run some ran)
  · rintro earlier token later rfl error
    exact ValueStack.not_outOfPlace_of_run ran
  · rw [valueOf_eq_error_iff, ValueStack.run_eq_error_iff_failsFirst]
    refine or_congr_right (or_congr_right ⟨?_, ?_⟩)
    · rintro ⟨values, ran, two, rfl⟩
      exact ⟨values, values.length, ran, ValueStack.height_of_run ran, two, rfl⟩
    · rintro ⟨values, remaining, ran, reached, two, rfl⟩
      have same : values.length = remaining := by
        exact_mod_cast (ValueStack.height_of_run ran).symm.trans reached
      exact ⟨values, ran, same ▸ two, congrArg EvalError.valuesLeft same.symm⟩

/-- In `3 4 + 0 / * (` the quotient fails before the product and the parenthesis.  In
`3 4 + * 0 / (` the product comes first: behind the sum there is one value.  The sequence
`1 2 ! 3` leaves three. -/
theorem valueOf_first_failure_product :
    ValueStack.run .standard [] [.number 3, .number 4, .operator "+"] = .ok [7] ∧
      height .standard [.number 3, .number 4, .operator "+"] = [(7 : Float)].length ∧
      1 ≤ [(7 : Float)].length ∧
      OperatorTable.standard.valueOf [.number 3, .number 4, .operator "+", .number 0,
        .operator "/", .operator "*", .opening] = .error .divisionByZero ∧
      OperatorTable.standard.valueOf [.number 3, .number 4, .operator "+", .operator "*",
        .number 0, .operator "/", .opening] = .error (.tooFewOperands "*" 2 1) ∧
      OperatorTable.standard.valueOf [.number 1, .number 2, .operator "!", .number 3] =
        .error (.valuesLeft 3) := by
  have heldProduct : OperatorTable.standard.find? Operator.multiplication.symbol =
      some .multiplication := rfl
  have heldQuotient : OperatorTable.standard.find? Operator.division.symbol =
      some .division := rfl
  have ran : ValueStack.run .standard [] [.number 3, .number 4, .operator "+"] = .ok [7] := by
    decide +kernel
  have ranZero : ValueStack.run .standard [] [.number 3, .number 4, .operator "+", .number 0] =
      .ok [0, 7] := by
    decide +kernel
  have ranThree : ValueStack.run .standard []
      [.number 1, .number 2, .operator "!", .number 3] = .ok [3, 2, 1] := by
    decide +kernel
  obtain ⟨reached, -, some, -⟩ := (valueOf_first_failure .standard []).1 _ _ ran
  have fails : OperatorTable.standard.FailsOn [0, 7] (.operator "/") .divisionByZero :=
    .operation heldQuotient (by decide +kernel)
  have misplaced : OperatorTable.standard.OutOfPlace
      [.number 3, .number 4, .operator "+"] (.operator "*") (.tooFewOperands "*" 2 1) :=
    .tooFew heldProduct reached (by decide)
  refine ⟨ran, reached, some (by simp), ?_, ?_, ?_⟩
  · exact ((valueOf_first_failure .standard _).2.1 _).mpr
      (.inr (.inl ⟨_, _, [.operator "*", .opening], _, rfl, ranZero, .inr fails⟩))
  · exact ((valueOf_first_failure .standard _).2.1 _).mpr
      (.inr (.inl ⟨_, _, [.number 0, .operator "/", .opening], _, rfl, ran, .inl misplaced⟩))
  · exact ((valueOf_first_failure .standard _).2.1 _).mpr
      (.inr (.inr ⟨_, 3, ranThree, by decide +kernel, by decide, rfl⟩))

end OperatorTable

end InfixCalculator
