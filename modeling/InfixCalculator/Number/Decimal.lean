import InfixCalculator.Number.Binary64

/-!
# Decimals in positional notation

A decimal is a natural number with a point some places from its right end.  It
is written with digits and at most one point, never with an exponent, and it is
read as the nearest double.

## Main definitions

* `Decimal` — a mantissa and a number of places behind the point.
* `Decimal.text` — the digits of a decimal; `Decimal.ofText?` reads them.
* `Decimal.scaled`, `Decimal.reduced` — a mantissa times a power of ten over a
  power of ten, and a decimal without zeros at its end.
* `Decimal.toFloat` — the double nearest to a decimal.
-/

namespace InfixCalculator

/-- A power of ten. -/
def tenTo (exponent : Nat) : Nat := Nat.pow 10 exponent

/-- A decimal number: `mantissa / 10 ^ places`. -/
structure Decimal where
  /-- All digits, without the point. -/
  mantissa : Nat
  /-- How many of the digits stand behind the point. -/
  places : Nat
deriving DecidableEq, Repr

namespace Decimal

/-- Takes zeros away from the end of the digits behind the point: the recursion
is on the number of places. -/
def dropZeros (mantissa : Nat) : Nat → Decimal
  | 0 => ⟨mantissa, 0⟩
  | places + 1 =>
      if mantissa % 10 = 0 then dropZeros (mantissa / 10) places
      else ⟨mantissa, places + 1⟩

@[simp] theorem dropZeros_zero (mantissa : Nat) : dropZeros mantissa 0 = ⟨mantissa, 0⟩ := rfl

/-- The same number without zeros at the end of the digits behind the point. -/
def reduced (d : Decimal) : Decimal := dropZeros d.mantissa d.places

/-- The number `digits * 10 ^ exponent / 10 ^ places` as a reduced decimal. -/
def scaled (digits exponent places : Nat) : Decimal :=
  reduced ⟨digits * tenTo (exponent - places), places - exponent⟩

/-- The digits of the mantissa, with zeros in front so that at least one digit
stands before the point. -/
def digits (d : Decimal) : List Char :=
  (Nat.toDigits 10 d.mantissa).leftpad (d.places + 1) '0'

/-- The digits before the point. -/
def wholeDigits (d : Decimal) : List Char := d.digits.take (d.digits.length - d.places)

/-- The digits behind the point. -/
def fractionDigits (d : Decimal) : List Char := d.digits.drop (d.digits.length - d.places)

/-- **The text of a decimal.**  The point is left out where no digit would follow
it. -/
def text (d : Decimal) : List Char :=
  if d.places = 0 then d.wholeDigits else d.wholeDigits ++ '.' :: d.fractionDigits

/-- Whether a character is no point. -/
def isNoPoint (c : Char) : Bool := c ≠ '.'

/-- **Reads digits with at most one point among them.**  A second point makes
the text no number.  The point may end the digits. -/
def ofText? (numeral : List Char) : Option Decimal :=
  let whole := numeral.takeWhile isNoPoint
  let fraction := (numeral.dropWhile isNoPoint).drop 1
  if '.' ∈ fraction then none
  else some ⟨Nat.ofDigitChars 10 (whole ++ fraction) 0, fraction.length⟩

/-- Exactly the texts with a second point are no numbers. -/
theorem ofText?_eq_none_iff {numeral : List Char} :
    ofText? numeral = none ↔ 2 ≤ numeral.count '.' := by
  have whole : (numeral.takeWhile isNoPoint).count '.' = 0 := by
    refine List.count_eq_zero.mpr fun h => ?_
    have noPoint := List.all_eq_true.mp List.all_takeWhile '.' h
    simp [isNoPoint] at noPoint
  have total := congrArg (List.count '.')
    (List.takeWhile_append_dropWhile (p := isNoPoint) (l := numeral))
  rw [List.count_append, whole, Nat.zero_add] at total
  rw [ofText?, ← total]
  cases h : numeral.dropWhile isNoPoint with
  | nil => simp
  | cons c fraction =>
      have point : c = '.' := by
        have first := List.head_dropWhile_not isNoPoint (l := numeral) (by simp [h])
        simpa [h, isNoPoint] using first
      have second : 2 ≤ fraction.count '.' + 1 ↔ '.' ∈ fraction := by
        rw [← List.one_le_count_iff]
        omega
      simp [point, second]

theorem isDigit_of_mem_digits {d : Decimal} {c : Char} (hc : c ∈ d.digits) :
    c.isDigit = true := by
  rw [digits, List.leftpad, List.mem_append] at hc
  rcases hc with hc | hc
  · rw [List.eq_of_mem_replicate hc]
    rfl
  · exact Nat.isDigit_of_mem_toDigits (by decide) (by decide) hc

theorem isNoPoint_of_mem_digits {d : Decimal} {c : Char} (hc : c ∈ d.digits) :
    isNoPoint c = true := by
  have digit := isDigit_of_mem_digits hc
  simp only [isNoPoint, decide_eq_true_eq]
  rintro rfl
  simp at digit

/-- A digit stands before the point. -/
theorem places_lt_length_digits (d : Decimal) : d.places < d.digits.length := by
  simp only [digits, List.length_leftpad]
  omega

/-- A text starts with a digit. -/
theorem text_eq_cons (d : Decimal) :
    ∃ c rest, d.text = c :: rest ∧ c.isDigit = true := by
  have length := d.places_lt_length_digits
  have nonempty : 0 < d.wholeDigits.length := by
    simp only [wholeDigits, List.length_take]
    omega
  obtain ⟨c, rest, whole⟩ := List.exists_cons_of_length_pos nonempty
  have digit : c.isDigit = true :=
    isDigit_of_mem_digits (List.mem_of_mem_take (whole ▸ List.mem_cons_self))
  unfold text
  split
  · exact ⟨c, rest, whole, digit⟩
  · exact ⟨c, rest ++ '.' :: d.fractionDigits, by rw [whole, List.cons_append], digit⟩

/-- The digits of a decimal are those of its mantissa. -/
theorem ofDigitChars_digits (d : Decimal) : Nat.ofDigitChars 10 d.digits 0 = d.mantissa := by
  have zeros : ∀ n, Nat.ofDigitChars 10 (List.replicate n '0') 0 = 0 := fun n => by
    induction n with
    | zero => rfl
    | succ n ih => simpa [Nat.ofDigitChars, List.replicate_succ] using ih
  simp only [digits, List.leftpad, Nat.ofDigitChars_append, zeros]
  exact Nat.ofDigitChars_toDigits (by decide) (by decide)

/-- **Reading the text of a decimal gives the decimal.** -/
@[simp] theorem ofText?_text (d : Decimal) : ofText? d.text = some d := by
  have length := d.places_lt_length_digits
  have noPoint : ∀ c ∈ d.wholeDigits, isNoPoint c = true := fun c hc =>
    isNoPoint_of_mem_digits (List.mem_of_mem_take hc)
  have together : d.wholeDigits ++ d.fractionDigits = d.digits := List.take_append_drop ..
  have value := d.ofDigitChars_digits
  unfold text ofText?
  split
  next h =>
    have empty : d.fractionDigits = [] := by simp [fractionDigits, h]
    have kept : (d.wholeDigits ++ []).takeWhile isNoPoint = d.wholeDigits :=
      (List.takeWhile_append_of_pos noPoint).trans (List.append_nil _)
    have dropped : (d.wholeDigits ++ []).dropWhile isNoPoint = [] :=
      List.dropWhile_append_of_pos noPoint
    rw [empty, List.append_nil] at together
    rw [List.append_nil, together] at kept dropped
    simp only [together, kept, dropped, List.drop_nil, List.not_mem_nil, if_false,
      List.append_nil, List.length_nil, value]
    rw [← h]
  next =>
    have fractionLength : d.fractionDigits.length = d.places := by
      simp only [fractionDigits, List.length_drop]
      omega
    have onePoint : '.' ∉ d.fractionDigits := fun hm => by
      simpa [isNoPoint] using isNoPoint_of_mem_digits (List.mem_of_mem_drop hm)
    have kept : (d.wholeDigits ++ '.' :: d.fractionDigits).takeWhile isNoPoint
        = d.wholeDigits :=
      (List.takeWhile_append_of_pos noPoint).trans (List.append_nil _)
    have dropped : (d.wholeDigits ++ '.' :: d.fractionDigits).dropWhile isNoPoint
        = '.' :: d.fractionDigits :=
      List.dropWhile_append_of_pos noPoint
    simp only [kept, dropped, List.drop_one, List.tail_cons, onePoint, if_false, together,
      value, fractionLength]

/-- The magnitude nearest to a decimal. -/
def magnitude (d : Decimal) : Magnitude :=
  .nearest (d.mantissa * Magnitude.unitsPerOne) (tenTo d.places)

/-- **The double nearest to a decimal**; a decimal above the largest finite
double is infinity. -/
def toFloat (d : Decimal) : Float := (Binary64.finite false d.magnitude).toFloat

theorem tenTo_pos (exponent : Nat) : 0 < tenTo exponent := Nat.pow_pos (by decide)

theorem tenTo_succ (exponent : Nat) : tenTo (exponent + 1) = tenTo exponent * 10 := rfl

theorem magnitude_dropZeros (mantissa places : Nat) :
    (dropZeros mantissa places).magnitude = (⟨mantissa, places⟩ : Decimal).magnitude := by
  induction places generalizing mantissa with
  | zero => rfl
  | succ places ih =>
      rw [dropZeros]
      split
      next h =>
        have tens : mantissa = mantissa / 10 * 10 := by omega
        rw [ih]
        simp only [magnitude, tenTo_succ]
        conv => rhs; rw [tens, Nat.mul_right_comm, Magnitude.nearest_mul_mul _ _ (by decide)]
      next => rfl

/-- Zeros at the end do not change what a decimal is read as. -/
@[simp] theorem magnitude_reduced (d : Decimal) : d.reduced.magnitude = d.magnitude :=
  magnitude_dropZeros d.mantissa d.places

end Decimal

end InfixCalculator
