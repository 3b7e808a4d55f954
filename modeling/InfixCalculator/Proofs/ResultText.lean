import InfixCalculator.Proofs.FullText
import InfixCalculator.Proofs.NumberText

/-!
# Results as expressions

What is printed for a finite result is itself an expression, and its value is the result.  The
text of a decimal is a literal (`Decimal.isLiteral_text`), so only the minus sign of a negative
result has to be followed through the program: at the start of an expression it is the leading
minus, it covers the whole literal, and it negates the number that the literal is read as
(`IsLiteral.calculate_signed`).  Negating the double of a magnitude gives the double of the
other sign (`Binary64.neg_toFloat_finite`), so nothing is lost on the way; only `-0` is printed
as `0` and comes back as it.
-/

namespace InfixCalculator

open Lexeme

/-! ## Texts of decimals -/

/-- The text of a decimal goes on with digits and points. -/
theorem Decimal.continuesNumeral_of_mem_text {d : Decimal} {c : Char} (member : c ∈ d.text) :
    continuesNumeral c = true := by
  have ofDigits : ∀ c ∈ d.digits, continuesNumeral c = true := fun c digit => by
    rw [continuesNumeral, isDigit_of_mem_digits digit, Bool.true_or]
  unfold text at member
  split at member
  next => exact ofDigits c (List.mem_of_mem_take member)
  next =>
    rcases List.mem_append.mp member with whole | behind
    · exact ofDigits c (List.mem_of_mem_take whole)
    · rcases List.mem_cons.mp behind with rfl | fraction
      · rfl
      · exact ofDigits c (List.mem_of_mem_drop fraction)

/-- **The text of a decimal is a literal** of the double that it is read as. -/
theorem Decimal.isLiteral_text (d : Decimal) : IsLiteral d.text d.toFloat := by
  obtain ⟨first, rest, split, digit⟩ := d.text_eq_cons
  refine ⟨⟨first, rest, split, digit, List.all_eq_true.mpr fun c member => ?_⟩,
    d, d.ofText?_text, rfl⟩
  exact continuesNumeral_of_mem_text (split ▸ List.mem_cons_of_mem first member)

/-! ## Literals with a sign -/

/-- The tree of a number with a minus sign before it, or without one. -/
def Expression.signed (negative : Bool) (value : Float) : Expression :=
  if negative then unary .leadingMinus (number value) else number value

variable {literal : List Char} {value : Float}

theorem Expression.eval_signed_false (value : Float) :
    (signed false value).eval = .ok value := rfl

theorem Expression.eval_signed_true (finite : (-value).isFinite = true) :
    (signed true value).eval = .ok (-value) := by
  show (if (-value).isFinite then pure (-value) else throw _ : Except EvalError Float) = _
  rw [if_pos finite]
  rfl

theorem IsLiteral.continuesNumeral_of_mem (reads : IsLiteral literal value) {c : Char}
    (member : c ∈ literal) : continuesNumeral c = true := by
  obtain ⟨⟨first, rest, rfl, digit, run⟩, -⟩ := reads
  rcases List.mem_cons.mp member with rfl | later
  · rw [continuesNumeral, digit, Bool.true_or]
  · exact List.all_eq_true.mp run c later

/-- No blank stands in a literal with a sign. -/
theorem IsLiteral.withoutBlanks_signed (reads : IsLiteral literal value) (negative : Bool) :
    withoutBlanks (String.ofList (Number.signed negative literal)) =
      String.ofList (Number.signed negative literal) := by
  have noBlank : ∀ c ∈ Number.signed negative literal, c ≠ ' ' ∧ c ≠ '\t' := by
    intro c member
    have cases : c = '-' ∨ c ∈ literal := by
      cases negative with
      | false => exact .inr member
      | true => exact List.mem_cons.mp member
    rcases cases with rfl | inside
    · decide
    · have continues := reads.continuesNumeral_of_mem inside
      constructor <;> rintro rfl <;> cases continues
  rw [withoutBlanks, String.toList_ofList, List.filter_eq_self.mpr (by simpa using noBlank)]

/-- A minus sign at the start of an expression is the leading minus if a literal follows. -/
theorem IsLiteral.items_signed (reads : IsLiteral literal value) (negative : Bool) :
    OperatorTable.standard.items (String.ofList (Number.signed negative literal)) =
      (Expression.signed negative value).inorder.map .ok := by
  have read : ∀ index context,
      Scanner.itemsFrom .standard index context (cut literal) = [.ok (.number value)] := by
    intro index context
    have readsAs : Expression.ReadsAs .standard context literal [.number value] .number :=
      Expression.readsAs_writtenInFull (.number reads) trivial context
    have scanned := readsAs index [] fun c h => nomatch h
    rw [List.append_nil] at scanned
    exact scanned
  rw [OperatorTable.items, OperatorTable.scanner, Scanner.items, String.toList_ofList]
  cases negative with
  | false => exact read 0 .start
  | true =>
    obtain ⟨⟨first, rest, rfl, digit, -⟩, -⟩ := reads
    have notMinus : first ≠ '-' := by
      rintro rfl
      cases digit
    have leading : readLexeme .standard .start 0 (firstChar (cut (first :: rest))) .minus =
        .ok (.operator Minus.leading.symbol, .pending) := by
      rw [firstChar_cut, readLexeme, Minus.resolve?.eq_def]
      simp [Context.endsValue, notMinus, Minus.context]
    show Scanner.itemsFrom .standard 0 .start (cut ('-' :: first :: rest)) = _
    rw [cut_other (by decide), show ofChar '-' = .minus from rfl, Scanner.itemsFrom_cons_ok leading,
      read]
    rfl

/-- **The value of a literal with a sign.** -/
theorem IsLiteral.calculate_signed (reads : IsLiteral literal value) (negative : Bool) :
    calculate (String.ofList (Number.signed negative literal)) =
      (Expression.signed negative value).eval.mapError .evaluating := by
  have uses : (Expression.signed negative value).UsesTable .standard := by
    cases negative with
    | false => trivial
    | true => exact ⟨rfl, rfl, trivial⟩
  have grouped : (Expression.signed negative value).Grouped := by
    cases negative with
    | false => trivial
    | true => exact ⟨trivial, fun later h => nomatch h⟩
  have ordered : OperatorTable.standard.postfixForm
      (String.ofList (Number.signed negative literal)) =
        .ok (Expression.signed negative value).postorder := by
    rw [OperatorTable.postfixForm, reads.withoutBlanks_signed, reads.items_signed,
      OperatorTable.postfixOrder_map_ok]
    exact Expression.arrange_inorder uses grouped
  exact Expression.calculate_of_postfixForm uses ordered

/-! ## Texts of doubles -/

/-- **The text of a finite double is an expression with its value**, for negative zero too. -/
theorem calculate_text (finite : value.isFinite = true) :
    calculate (Number.text value) = .ok value := by
  have back := Binary64.toFloat_ofFloat value
  cases stands : Binary64.ofFloat value with
  | nan =>
    rw [← back, stands] at finite
    exact absurd finite (by decide +kernel)
  | infinite negative =>
    rw [← back, stands] at finite
    exact absurd finite (by cases negative <;> decide +kernel)
  | finite negative m =>
    rw [stands] at back
    have text : Number.text value =
        String.ofList (Number.signed negative m.shortestDecimal.text) := by
      rw [Number.text, Number.chars, stands]
    have number : m.shortestDecimal.toFloat = (Binary64.finite false m).toFloat :=
      Magnitude.toFloat_shortestDecimal (Binary64.canonical_of_ofFloat stands)
    rw [text, m.shortestDecimal.isLiteral_text.calculate_signed, number]
    cases negative with
    | false =>
      rw [Expression.eval_signed_false, back]
      rfl
    | true =>
      have small := (Binary64.isFinite_toFloat_finite true m).mp (back ▸ finite)
      have negated : -(Binary64.finite false m).toFloat = value :=
        (Binary64.neg_toFloat_finite false small).trans back
      rw [Expression.eval_signed_true (negated ▸ finite), negated]
      rfl

/-- **A number comes back from its text**: the text that is printed for it is an expression, whose
value equals the number.  It is the number itself, but negative zero comes back as zero. -/
def ComesBack (value : Float) : Prop :=
  ∃ again, calculate (Number.resultText value) = .ok again ∧ (again == value) = true ∧
    again = if value == 0 then 0 else value

/-- Both zeros are printed without a sign and come back as zero. -/
theorem comesBack_zero (zero : (value == 0) = true) : ComesBack value := by
  have text : Number.resultText value = "0" := if_pos zero
  have read : calculate "0" = .ok 0 := by decide +kernel
  rw [ComesBack, text]
  refine ⟨0, read, ?_, (if_pos zero).symm⟩
  rcases FloatBits.beq_zero_iff.mp zero with rfl | rfl
  · exact zero
  · decide +kernel

/-- **What is printed can be calculated with.**  Every finite double comes back from its text, and
so does every finite result of an expression. -/
theorem calculate_resultText :
    (∀ value : Float, value.isFinite = true → ComesBack value) ∧
    ∀ expression value, calculate expression = .ok value → value.isFinite = true →
      ComesBack value := by
  have comesBack : ∀ value : Float, value.isFinite = true → ComesBack value := by
    intro value finite
    by_cases zero : (value == 0) = true
    · exact comesBack_zero zero
    · have text : Number.resultText value = Number.text value := if_neg zero
      rw [ComesBack, text]
      exact ⟨value, calculate_text finite, FloatBits.beq_self finite, (if_neg zero).symm⟩
  exact ⟨comesBack, fun _ value _ finite => comesBack value finite⟩

/-- The least positive double with a minus sign, a negative difference, and negative zero, which
comes back as zero. -/
theorem calculate_resultText_negative :
    let least := -Float.ofBits 1
    let difference : Float := -0.125
    let negativeZero : Float := -0
    (least.isFinite = true ∧ ComesBack least) ∧
      (calculate "1/8 - 1/4" = .ok difference ∧ difference.isFinite = true ∧
        ComesBack difference) ∧
      negativeZero.isFinite = true ∧ negativeZero ≠ 0 ∧
        calculate (Number.resultText negativeZero) = .ok 0 := by
  intro least difference negativeZero
  have small : least.isFinite = true := by decide +kernel
  have calculated : calculate "1/8 - 1/4" = .ok difference := by decide +kernel
  have finite : difference.isFinite = true := by decide +kernel
  have zeroFinite : negativeZero.isFinite = true := by decide +kernel
  obtain ⟨again, read, -, same⟩ := calculate_resultText.1 negativeZero zeroFinite
  obtain rfl : again = 0 := same.trans (if_pos (by decide +kernel))
  exact ⟨⟨small, calculate_resultText.1 least small⟩,
    ⟨calculated, finite, calculate_resultText.2 _ difference calculated finite⟩,
    zeroFinite, by decide +kernel, read⟩

end InfixCalculator
