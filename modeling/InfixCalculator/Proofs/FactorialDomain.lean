import InfixCalculator.Calculator
import InfixCalculator.Proofs.EvaluationFailures
import InfixCalculator.Proofs.RationalValue

/-!
# The domain of the factorial

The factorial of a natural number above `largestFactorial` is infinity, and an evaluation
reports a result that is not finite.  A double outside the natural numbers is an error of its
own.  But the natural number is read from the double by `exactNatural?`, which stops at
`largestExactNatural`: all greater doubles are natural numbers too, and are reported as if they
were not (`factorial_domain`).

In an evaluation with the standard table nothing but a factorial reports such an operand
(`factorial_of_valueOf`).
-/

namespace InfixCalculator

open Arithmetic

/-- **A double that is read as no natural number** is below zero, fractional or not finite —
or it is a natural number that is too large. -/
theorem exactNatural?_eq_none_iff (x : Float) :
    exactNatural? x = none ↔
      (x < 0 ∨ Fractional x ∨ x.isInf = true ∨ x.isNaN = true) ∨
        ∃ n : ℕ, rational? x = some (n : ℚ) ∧ largestExactNatural < n := by
  have read : exactNatural? x = none ↔
      ∀ n : ℕ, rational? x = some (n : ℚ) → largestExactNatural < n := by
    simp [Option.eq_none_iff_forall_ne_some, exactNatural?_eq_some_iff]
  by_cases natural : ∃ n : ℕ, rational? x = some (n : ℚ)
  · rw [read, or_iff_right ((exists_nat_iff x).mp natural)]
    obtain ⟨n, number⟩ := natural
    refine ⟨fun large => ⟨n, number, large n number⟩, ?_⟩
    rintro ⟨m, number, large⟩ m' number'
    have same : (m : ℚ) = m' := Option.some.inj (number.symm.trans number')
    rwa [← Nat.cast_injective same]
  · have outside := not_not.mp (mt (exists_nat_iff x).mpr natural)
    exact iff_of_true (read.mpr fun n number => absurd ⟨n, number⟩ natural) (.inl outside)

/-- The factorial of a large natural number is infinity, if the number is read at all. -/
theorem factorial_of_large {x : Float} {n : ℕ} (number : rational? x = some (n : ℚ))
    (large : largestFactorial < n) :
    factorial x = if n ≤ largestExactNatural then .ok (Binary64.infinite false).toFloat
      else .error (.factorialDomain x) := by
  split
  next small =>
    rw [factorial, exactNatural?_eq_some_iff.mpr ⟨number, small⟩]
    exact if_pos large
  next beyond =>
    have unread : exactNatural? x = none :=
      (exactNatural?_eq_none_iff x).mpr (.inr ⟨n, number, Nat.lt_of_not_le beyond⟩)
    exact factorial_eq_error_iff.mpr ⟨unread, rfl⟩

/-! ## In an evaluation -/

/-- **Only the factorial reports an operand as outside its domain**, and the operand that it
reports is its own. -/
theorem factorial_of_valueOf {tokens : List Token} {x : Float}
    (failed : OperatorTable.standard.valueOf tokens = .error (.factorialDomain x)) :
    factorial x = .error (.factorialDomain x) := by
  rcases OperatorTable.valueOf_eq_error_iff.mp failed with ⟨-, same⟩ | failed | ⟨_, -, -, same⟩
  · cases same
  · obtain ⟨before, token, after, values, -, -, misplaced | fails⟩ :=
      ValueStack.run_eq_error_iff_failsFirst.mp failed
    · cases misplaced
    · cases fails with
      | operation held computed =>
          have standard := mem_standardOperators held
          rcases (failsOnlyWith_of_mem_standardOperators _ standard).of_compute? computed with
            other | ⟨operand, failed⟩
          · cases other
          · obtain rfl := EvalError.factorialDomain.inj (factorial_eq_error_iff.mp failed).2
            exact failed
  · cases same

/-- **A factorial in a sequence** fails if it has no value, and if its value is not finite. -/
theorem valueOf_behind_factorial {before after : List Token} {x : Float} {values : ValueStack}
    {error : EvalError} (ran : ValueStack.run .standard [] before = .ok (x :: values))
    (fails : factorial x = .error error ∨
      ∃ value, factorial x = .ok value ∧ value.isFinite = false ∧ error = .notFinite "!") :
    OperatorTable.standard.valueOf (before ++ .operator "!" :: after) = .error error := by
  have held : OperatorTable.standard.find? Operator.factorial.symbol = some .factorial := rfl
  have failed : ValueStack.step .standard (x :: values) (.operator Operator.factorial.symbol) =
      .error error := by
    refine (ValueStack.step_operator_eq_error_iff held).mpr ?_
    rcases fails with own | ⟨value, computed, infinite, rfl⟩
    · exact .inl (congrArg some own)
    · exact .inr (.inr ⟨value, congrArg some computed, infinite, rfl⟩)
  exact OperatorTable.valueOf_eq_error_iff.mpr (.inr (.inl
    (ValueStack.run_eq_error_iff.mpr ⟨before, _, after, _, rfl, ran, failed⟩)))

/-- **The domain of the factorial.**  It fails exactly on the doubles that are below zero,
fractional or not finite, and on the natural numbers above `largestExactNatural`.  Of the
natural numbers above `largestFactorial` it is infinity up to there, and then an evaluation
reports the result as not finite; above, it reports the operand as outside the domain.  No
evaluation reports any other operand so. -/
theorem factorial_domain (x : Float) :
    (∀ error, factorial x = .error error ↔
      error = .factorialDomain x ∧
        ((x < 0 ∨ Fractional x ∨ x.isInf = true ∨ x.isNaN = true) ∨
          ∃ n : ℕ, rational? x = some (n : ℚ) ∧ largestExactNatural < n)) ∧
    (∀ n : ℕ, rational? x = some (n : ℚ) → largestFactorial < n →
      (factorial x = .ok (Binary64.infinite false).toFloat ↔ n ≤ largestExactNatural) ∧
      ∀ before after values, ValueStack.run .standard [] before = .ok (x :: values) →
        OperatorTable.standard.valueOf (before ++ .operator "!" :: after) =
          .error (if n ≤ largestExactNatural then .notFinite "!" else .factorialDomain x)) ∧
    ∀ tokens, OperatorTable.standard.valueOf tokens = .error (.factorialDomain x) →
      factorial x = .error (.factorialDomain x) := by
  refine ⟨fun error => ?_, fun n number large => ⟨?_, fun before after values ran => ?_⟩,
    fun tokens failed => factorial_of_valueOf failed⟩
  · rw [factorial_eq_error_iff, exactNatural?_eq_none_iff, and_comm]
  · rw [factorial_of_large number large]
    split <;> simp [*]
  · apply valueOf_behind_factorial ran
    rw [factorial_of_large number large]
    split
    next => exact .inr ⟨_, rfl, by decide +kernel, rfl⟩
    next => exact .inl rfl

/-- The factorial of 171 is infinity and reported as not finite; `2.5!` is reported for its
operand. -/
theorem factorial_domain_infinite :
    rational? 171 = some ((171 : ℕ) : ℚ) ∧
      factorial 171 = .ok (Binary64.infinite false).toFloat ∧
      OperatorTable.standard.valueOf [.number 171, .operator "!"] = .error (.notFinite "!") ∧
      OperatorTable.standard.valueOf [.number 2.5, .operator "!"] =
        .error (.factorialDomain 2.5) ∧
      factorial 2.5 = .error (.factorialDomain 2.5) := by
  have number : rational? 171 = some ((171 : ℕ) : ℚ) :=
    (exactNatural?_eq_some_iff.mp (by decide +kernel)).1
  have rejected : OperatorTable.standard.valueOf [.number 2.5, .operator "!"] =
      .error (.factorialDomain 2.5) := by decide +kernel
  obtain ⟨infinite, reported⟩ := (factorial_domain 171).2.1 171 number (by decide)
  exact ⟨number, infinite.mpr (by decide), reported [.number 171] [] [] rfl, rejected,
    (factorial_domain 2.5).2.2 _ rejected⟩

/-- The least natural number that is not read, `2 ^ 53`, is above `largestFactorial` and neither
below zero nor fractional nor infinite, but its factorial is not infinity: the operand is
reported as outside the domain. -/
theorem factorial_beyond_exact :
    let x : Float := 9007199254740992
    rational? x = some ((2 ^ 53 : ℕ) : ℚ) ∧ largestFactorial < 2 ^ 53 ∧
      ¬ (x < 0 ∨ Fractional x ∨ x.isInf = true ∨ x.isNaN = true) ∧
      factorial x = .error (.factorialDomain x) ∧
      calculate "9007199254740992!" = .error (.evaluating (.factorialDomain x)) := by
  intro x
  have stands : Binary64.ofFloat x = .finite false ⟨0x10000000000000, 1075⟩ := by decide +kernel
  have number : rational? x = some ((2 ^ 53 : ℕ) : ℚ) := by
    rw [rational?_of_finite stands]
    exact congrArg some (Magnitude.value_eq_natCast_iff.mpr (by decide +kernel))
  exact ⟨number, by decide, (exists_nat_iff x).mp ⟨_, number⟩, by decide +kernel,
    by decide +kernel⟩

end InfixCalculator
