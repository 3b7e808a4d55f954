import InfixCalculator.Number.Text
import InfixCalculator.Proofs.FloatBits

/-!
# Numbers keep their value

What a double stands for determines the double, and so does its text.

## Main statements

* `Binary64.toFloat_ofFloat` — going from a double to what it stands for and back
  changes nothing.
* `Binary64.neg_toFloat_finite` — the negation of a number has the other sign.
* `Number.ofText?_text` — reading the text of a double gives the double.
-/

namespace InfixCalculator

namespace Binary64

/-- The pattern of a sign and a pattern without sign. -/
theorem ofNat_signBit_add {x : Float} {negative : Bool} {size : Nat}
    (h : signBit negative + size = x.toBits.toNat) :
    Float.ofBits (UInt64.ofNat (signBit negative + size)) = x := by
  rw [h, UInt64.ofNat_toNat, FloatBits.ofBits_toBits]

/-- **A double is the double of what it stands for.** -/
@[simp] theorem toFloat_ofFloat (x : Float) : (ofFloat x).toFloat = x := by
  have bound : x.toBits.toNat < 2 * signPlace := x.toBits.toNat_lt
  have split_sign : signBit (decide (signPlace ≤ x.toBits.toNat))
      + x.toBits.toNat % signPlace = x.toBits.toNat := by
    by_cases h : signPlace ≤ x.toBits.toNat
    · rw [decide_eq_true h]
      simp only [signBit, signPlace, if_true] at bound h ⊢
      omega
    · rw [decide_eq_false h]
      simp only [signBit, signPlace, Bool.false_eq_true, if_false] at h ⊢
      omega
  simp only [ofFloat]
  split
  next finite =>
    refine ofNat_signBit_add ?_
    rw [Magnitude.toBits_ofBits, Nat.min_eq_left (Nat.le_of_lt finite), split_sign]
  next notFinite =>
    split
    next infinite => exact ofNat_signBit_add (infinite ▸ split_sign)
    next notInfinite =>
      simp only [signPlace, infinityBits] at bound notFinite notInfinite
      have pattern := FloatBits.eq_nan_of_fields (x := x) (by omega) (by omega)
      rw [← FloatBits.ofBits_toBits x, pattern]
      rfl

theorem signBit_eq_or (negative : Bool) :
    signBit negative = 0 ∨ signBit negative = signPlace := by
  cases negative
  · exact .inl rfl
  · exact .inr rfl

/-- The pattern of a finite number, or of infinity in its place. -/
theorem toBits_toFloat_finite (negative : Bool) (m : Magnitude) :
    (finite negative m).toFloat.toBits.toNat = signBit negative + min m.toBits infinityBits := by
  have sign := signBit_eq_or negative
  have most : min m.toBits infinityBits ≤ infinityBits := Nat.min_le_right _ _
  rw [toFloat]
  generalize min m.toBits infinityBits = size at most
  simp only [signPlace, infinityBits] at sign most
  have pattern : (UInt64.ofNat (signBit negative + size)).toNat = signBit negative + size := by
    rw [UInt64.toNat_ofNat']
    omega
  rw [FloatBits.toBits_ofBits_of_valid, pattern]
  refine FloatBits.valid_of_fields ?_
  rw [UInt64.toNat_toBitVec, pattern]
  omega

/-- **The double of a finite number is finite** if its magnitude is below the infinite. -/
theorem isFinite_toFloat_finite (negative : Bool) (m : Magnitude) :
    (finite negative m).toFloat.isFinite = true ↔ m.toBits < infinityBits := by
  have sign := signBit_eq_or negative
  rw [FloatBits.isFinite_iff, toBits_toFloat_finite]
  simp only [signPlace, infinityBits] at sign ⊢
  omega

theorem signBit_not (negative : Bool) : signBit (!negative) + signBit negative = signPlace := by
  cases negative <;> rfl

/-- **The negation of a finite number** has the other sign. -/
theorem neg_toFloat_finite (negative : Bool) {m : Magnitude} (small : m.toBits < infinityBits) :
    -(finite negative m).toFloat = (finite (!negative) m).toFloat := by
  have sign := signBit_eq_or negative
  have other := signBit_not negative
  have flipped := FloatBits.toNat_toBits_neg ((isFinite_toFloat_finite negative m).mpr small)
  have same : (-(finite negative m).toFloat).toBits = (finite (!negative) m).toFloat.toBits := by
    apply UInt64.toNat.inj
    rw [flipped, toBits_toFloat_finite, toBits_toFloat_finite, Nat.min_eq_left (Nat.le_of_lt small)]
    simp only [signPlace, infinityBits] at sign other small
    omega
  rw [← FloatBits.ofBits_toBits (-(finite negative m).toFloat), same, FloatBits.ofBits_toBits]

end Binary64

namespace Number

/-- A text that starts with a digit is read as a decimal. -/
theorem ofUnsigned?_digit (negative : Bool) {c : Char} (hc : c.isDigit = true)
    (rest : List Char) :
    ofUnsigned? negative (c :: rest) =
      (Decimal.ofText? (c :: rest)).map fun d =>
        (Binary64.finite negative d.magnitude).toFloat := by
  unfold ofUnsigned?
  split
  next h => simp_all
  next h => simp_all
  next => rfl

/-- A text without sign is read without sign. -/
theorem ofText?_signed (negative : Bool) {c : Char} (hc : c ≠ '-') (rest : List Char) :
    ofText? (String.ofList (signed negative (c :: rest))) = ofUnsigned? negative (c :: rest) := by
  cases negative
  · simp only [ofText?, signed, String.toList_ofList, Bool.false_eq_true, if_false]
    split
    next h => exact absurd (List.cons.inj h).1 hc
    next => rfl
  · simp [ofText?, signed]

/-- **Reading the text of a double gives the double.** -/
@[simp] theorem ofText?_text (x : Float) : ofText? (text x) = some x := by
  have back := Binary64.toFloat_ofFloat x
  unfold text chars
  split
  next h =>
    rw [h] at back
    simp [ofText?, ofUnsigned?, back]
  next negative h =>
    rw [h] at back
    have read := ofText?_signed negative (show 'i' ≠ '-' by decide) ['n', 'f']
    simpa [ofUnsigned?, back] using read
  next negative m h =>
    rw [h] at back
    have same : (Binary64.finite negative m.shortestDecimal.magnitude).toFloat = x := by
      have reads := Magnitude.readsAs_shortestDecimal (Binary64.canonical_of_ofFloat h)
      rw [← back]
      simp only [Binary64.toFloat, Decimal.readsAs_iff.mp reads]
    obtain ⟨c, rest, text, digit⟩ := m.shortestDecimal.text_eq_cons
    have noSign : c ≠ '-' := by
      rintro rfl
      simp at digit
    rw [text, ofText?_signed negative noSign, ofUnsigned?_digit negative digit, ← text,
      Decimal.ofText?_text]
    exact congrArg some same

end Number

end InfixCalculator
