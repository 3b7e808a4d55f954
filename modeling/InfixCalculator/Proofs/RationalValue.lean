import Mathlib
import InfixCalculator.Number.Binary64
import InfixCalculator.Proofs.FloatBits

/-!
# The rational number that a double is

A finite double is a significand times a power of two, so it is a rational number
(`rational?`).  This reads it off the unpacked double and knows nothing of units.  What a
double stands for in units is the same number (`rational?_of_finite`): a significand that is
shifted from `2 ^ -1074` up.

The signs and the classes of doubles can be told from it: below zero are the negative numbers
and one infinity, and a number that is not below zero and no natural number is fractional
(`exists_nat_iff`).

## Main statements

* `unpack_of_finite` — what a finite double is unpacked to.
* `rational?_of_finite`, `rational?_eq_none` — the number from what the double stands for.
* `exactNatural?_eq_some_iff` — the natural numbers among the doubles.
-/

namespace InfixCalculator

open Float.Model

/-- **The rational number that a double is**: a significand times a power of two, with its
sign.  Infinities and not-a-number are none. -/
def rational? (x : Float) : Option ℚ :=
  match x.toModel.unpack with
  | .zero _ => some 0
  | .finite .positive significand exponent _ => some (significand * 2 ^ exponent)
  | .finite .negative significand exponent _ => some (-(significand * 2 ^ exponent))
  | .infinity _ | .notANumber => none

/-- **A fractional double** is a number but not a whole one. -/
def Fractional (x : Float) : Prop := ∃ q, rational? x = some q ∧ ∀ z : ℤ, q ≠ z

/-! ## Unpacking -/

/-- The sign of an unpacked double. -/
def unpackedSign (negative : Bool) : UnpackedFloat.Sign :=
  if negative then .negative else .positive

/-- The sign field of a pattern, in natural numbers. -/
theorem toNat_unpackSign (b : FloatBits.Pattern) :
    (UnpackedFloat.unpackSign b).toNat = b.toNat / 0x8000000000000000 := by
  have bound : b.toNat < 2 ^ 64 := b.isLt
  simp [UnpackedFloat.unpackSign, Nat.shiftRight_eq_div_pow]
  omega

/-- A pattern has the sign of what it stands for. -/
theorem ofBitVec_unpackSign (b : FloatBits.Pattern) :
    UnpackedFloat.Sign.ofBitVec (UnpackedFloat.unpackSign b) =
      unpackedSign (decide (Binary64.signPlace ≤ b.toNat)) := by
  have bound : b.toNat < 2 * Binary64.signPlace := b.isLt
  have positive : UnpackedFloat.unpackSign b = 0#1 ↔ ¬ Binary64.signPlace ≤ b.toNat := by
    rw [← BitVec.toNat_inj, toNat_unpackSign]
    simp [Binary64.signPlace]
  rw [UnpackedFloat.Sign.ofBitVec, unpackedSign]
  by_cases large : Binary64.signPlace ≤ b.toNat
  · rw [if_neg fun zero => positive.mp zero large, decide_eq_true large, if_pos rfl]
  · rw [if_pos (positive.mpr large), decide_eq_false large, if_neg Bool.false_ne_true]

/-- **What a finite double stands for**, from the fields of its pattern: the fraction is the
significand, with a leading one unless the exponent field is zero. -/
theorem fields_of_finite {x : Float} {negative : Bool} {m : Magnitude}
    (stands : Binary64.ofFloat x = .finite negative m) :
    negative = decide (Binary64.signPlace ≤ x.toBits.toNat) ∧
      x.toBits.toNat / 0x10000000000000 % 2048 ≠ 2047 ∧
      (x.toBits.toNat / 0x10000000000000 % 2048 = 0 →
        m = ⟨x.toBits.toNat % 0x10000000000000, 0⟩) ∧
      (x.toBits.toNat / 0x10000000000000 % 2048 ≠ 0 →
        m = ⟨0x10000000000000 + x.toBits.toNat % 0x10000000000000,
          x.toBits.toNat / 0x10000000000000 % 2048 - 1⟩) := by
  simp only [Binary64.ofFloat] at stands
  split at stands
  next finite =>
    obtain ⟨rfl, rfl⟩ := Binary64.finite.inj stands
    simp only [Binary64.infinityBits, Binary64.signPlace] at finite
    simp only [Magnitude.ofBits, fractionCount, Binary64.signPlace, Magnitude.mk.injEq]
    refine ⟨trivial, ?_, ?_, ?_⟩ <;> omega
  next => split at stands <;> cases stands

/-- **What a finite double is unpacked to**: zero, or the significand and the shift that it
stands for, the shift counted from the unit. -/
theorem unpack_of_finite {x : Float} {negative : Bool} {m : Magnitude}
    (stands : Binary64.ofFloat x = .finite negative m) :
    m.significand = 0 ∧ x.toModel.unpack = .zero (unpackedSign negative) ∨
      ∃ positive, x.toModel.unpack =
        .finite (unpackedSign negative) m.significand (m.shift - Magnitude.unitPlaces)
          positive := by
  obtain ⟨rfl, notFull, subnormal, normal⟩ := fields_of_finite stands
  let b : FloatBits.Pattern := x.toBits.toBitVec
  have sign : UnpackedFloat.Sign.ofBitVec (UnpackedFloat.unpackSign b) =
      unpackedSign (decide (Binary64.signPlace ≤ x.toBits.toNat)) := ofBitVec_unpackSign b
  have exponent := FloatBits.toNat_unpackExponent b
  have fraction := FloatBits.toNat_unpackMantissa b
  have full := FloatBits.toNat_one_append (UnpackedFloat.unpackMantissa b)
  have bias : Format.binary64.exponentBias = 1023 := rfl
  have places : Magnitude.unitPlaces = 1074 := by
    unfold Magnitude.unitPlaces
    rfl
  have unpacked : x.toModel.unpack = UnpackedFloat.unpack .binary64 b := rfl
  have pattern : b.toNat = x.toBits.toNat := rfl
  rw [unpacked, UnpackedFloat.unpack, ← sign, places]
  rw [pattern] at exponent fraction
  rw [← exponent] at notFull subnormal normal
  rw [← fraction] at subnormal normal
  simp only [bias]
  rw [if_neg fun infinite => notFull (congrArg BitVec.toNat infinite)]
  split
  next zero =>
    have none : (UnpackedFloat.unpackExponent b).toNat = 0 :=
      congrArg BitVec.toNat zero
    obtain rfl := subnormal none
    split
    next zero => exact .inl ⟨congrArg BitVec.toNat zero, rfl⟩
    next nonzero =>
      refine .inr ⟨Nat.pos_of_ne_zero fun zero => nonzero (BitVec.eq_of_toNat_eq zero), ?_⟩
      simp only [UnpackedFloat.finite.injEq, true_and, none]
      rfl
  next nonzero =>
    have some : (UnpackedFloat.unpackExponent b).toNat ≠ 0 :=
      fun zero => nonzero (BitVec.eq_of_toNat_eq zero)
    obtain rfl := normal some
    refine .inr ⟨Nat.add_pos_left (by decide) _, ?_⟩
    simp only [UnpackedFloat.finite.injEq, true_and]
    exact ⟨full, by omega⟩

/-! ## The number in units -/

/-- The rational number of a magnitude: its units, of which so many make up one. -/
def Magnitude.value (m : Magnitude) : ℚ := m.units / unitsPerOne

theorem Magnitude.value_eq (m : Magnitude) :
    m.value = m.significand * (2 : ℚ) ^ ((m.shift : ℤ) - unitPlaces) := by
  rw [value, units, unitsPerOne, Nat.shiftLeft_eq, Nat.one_shiftLeft,
    zpow_sub₀ (two_ne_zero), zpow_natCast, zpow_natCast]
  push_cast
  rw [mul_div_assoc]

/-- **The number of a finite double** is that of its magnitude, with its sign. -/
theorem rational?_of_finite {x : Float} {negative : Bool} {m : Magnitude}
    (stands : Binary64.ofFloat x = .finite negative m) :
    rational? x = some (if negative then -m.value else m.value) := by
  rcases unpack_of_finite stands with ⟨zero, unpacked⟩ | ⟨positive, unpacked⟩
  · rw [rational?, unpacked, Magnitude.value_eq, zero]
    simp
  · rw [rational?, unpacked, Magnitude.value_eq]
    cases negative <;> rfl

/-- Exactly the finite doubles are numbers. -/
theorem isSome_rational? (x : Float) : (rational? x).isSome = x.isFinite := by
  rw [rational?, Float.isFinite, Float.Model.isFinite]
  cases x.toModel.unpack with
  | finite sign => cases sign <;> rfl
  | zero | infinity | notANumber => rfl

/-- A double that stands for no finite number is none. -/
theorem rational?_eq_none {x : Float}
    (notFinite : ∀ negative m, Binary64.ofFloat x ≠ .finite negative m) : rational? x = none := by
  rw [← Option.not_isSome_iff_eq_none, isSome_rational?, FloatBits.isFinite_iff]
  intro finite
  have small : x.toBits.toNat % Binary64.signPlace < Binary64.infinityBits := by
    simp only [Binary64.signPlace, Binary64.infinityBits]
    omega
  exact notFinite _ _ (by rw [Binary64.ofFloat, if_pos small])

/-! ## Natural numbers -/

/-- **A double is below zero** exactly if its number is. -/
theorem lt_zero_iff {x : Float} {q : ℚ} (number : rational? x = some q) : x < 0 ↔ q < 0 := by
  have compared : x < 0 ↔ x.toModel.unpack.lt (.zero .positive) = true := by
    show decide (x.toModel < (0 : Float).toModel) = true ↔ _
    rw [decide_eq_true_iff]
    exact Iff.rfl
  rw [compared]
  rw [rational?] at number
  cases unpacked : x.toModel.unpack with
  | infinity sign | notANumber =>
    rw [unpacked] at number
    cases number
  | zero sign =>
    rw [unpacked] at number
    obtain rfl := Option.some.inj number
    exact iff_of_false nofun (lt_irrefl 0)
  | finite sign significand exponent positive =>
    rw [unpacked] at number
    have size : (0 : ℚ) < significand * 2 ^ exponent :=
      mul_pos (by exact_mod_cast positive) (zpow_pos two_pos exponent)
    cases sign with
    | positive =>
      obtain rfl := Option.some.inj number
      exact iff_of_false nofun (not_lt_of_gt size)
    | negative =>
      obtain rfl := Option.some.inj number
      exact iff_of_true rfl (neg_neg_of_pos size)

/-- **The natural numbers** are the doubles that are not below zero, not fractional, not
infinite, and numbers at all. -/
theorem exists_nat_iff (x : Float) :
    (∃ n : ℕ, rational? x = some (n : ℚ)) ↔
      ¬ (x < 0 ∨ Fractional x ∨ x.isInf = true ∨ x.isNaN = true) := by
  have finite := isSome_rational? x
  have classes := FloatBits.isFinite_eq_false_iff x
  cases number : rational? x with
  | none =>
    rw [number] at finite
    have outside := classes.mp finite.symm
    simp only [reduceCtorEq, exists_false, false_iff, not_not]
    tauto
  | some q =>
    rw [number] at finite
    have inside : ¬ (x.isInf = true ∨ x.isNaN = true) := fun outside =>
      Bool.false_ne_true ((classes.mpr outside.symm).symm.trans finite.symm)
    rw [lt_zero_iff number, Fractional, number, or_iff_left inside]
    constructor
    · rintro ⟨n, same⟩ (negative | ⟨q', same', fractional⟩)
      · obtain rfl := Option.some.inj same
        exact not_lt_of_ge n.cast_nonneg negative
      · obtain rfl := Option.some.inj (same'.symm.trans same)
        exact fractional n (by simp)
    · intro outside
      rw [not_or, not_lt] at outside
      obtain ⟨nonneg, whole⟩ := outside
      by_contra none
      refine whole ⟨q, rfl, fun z same => none ⟨z.toNat, ?_⟩⟩
      subst same
      have back := Int.toNat_of_nonneg (Int.cast_nonneg_iff.mp nonneg)
      exact congrArg some (by exact_mod_cast back.symm)

/-- A magnitude is a natural number if it has the units of that many ones. -/
theorem Magnitude.value_eq_natCast_iff {m : Magnitude} {n : ℕ} :
    m.value = n ↔ m.units = n * unitsPerOne := by
  have nonzero : (unitsPerOne : ℚ) ≠ 0 := by exact_mod_cast Nat.ne_of_gt unitsPerOne_pos
  rw [value, div_eq_iff nonzero]
  exact_mod_cast Iff.rfl

theorem Magnitude.value_nonneg (m : Magnitude) : 0 ≤ m.value :=
  div_nonneg (Nat.cast_nonneg _) (Nat.cast_nonneg _)

/-- A negative number is a natural number only if it is zero. -/
theorem Magnitude.signed_value_eq_natCast_iff {negative : Bool} {m : Magnitude} {n : ℕ} :
    (if negative then -m.value else m.value) = n ↔
      m.units = n * unitsPerOne ∧ (negative = true → n = 0) := by
  cases negative with
  | false => simp [value_eq_natCast_iff]
  | true =>
    rw [if_pos rfl, ← value_eq_natCast_iff]
    have nonneg := m.value_nonneg
    have natural : (0 : ℚ) ≤ n := n.cast_nonneg
    constructor
    · intro same
      have zero : (n : ℚ) = 0 := by linarith
      exact ⟨by linarith, fun _ => by exact_mod_cast zero⟩
    · rintro ⟨same, zero⟩
      rw [same, zero rfl]
      simp

/-- **The natural number that a double is**, if it is not too large. -/
theorem exactNatural?_eq_some_iff {x : Float} {n : ℕ} :
    exactNatural? x = some n ↔ rational? x = some (n : ℚ) ∧ n ≤ largestExactNatural := by
  rw [exactNatural?]
  split
  next negative m stands =>
    have whole : m.units = n * Magnitude.unitsPerOne ↔
        m.units % Magnitude.unitsPerOne = 0 ∧ m.units / Magnitude.unitsPerOne = n := by
      constructor
      · intro same
        rw [same]
        exact ⟨Nat.mul_mod_left _ _, Nat.mul_div_cancel _ Magnitude.unitsPerOne_pos⟩
      · rintro ⟨divides, rfl⟩
        exact (Nat.div_mul_cancel (Nat.dvd_of_mod_eq_zero divides)).symm
    rw [rational?_of_finite stands, Option.some_inj, Magnitude.signed_value_eq_natCast_iff, whole,
      Option.ite_none_right_eq_some, Option.some_inj]
    constructor
    · rintro ⟨⟨divides, small, sign⟩, rfl⟩
      exact ⟨⟨⟨divides, rfl⟩, sign⟩, small⟩
    · rintro ⟨⟨⟨divides, rfl⟩, sign⟩, small⟩
      exact ⟨⟨divides, small, sign⟩, rfl⟩
  next notFinite =>
    rw [rational?_eq_none notFinite]
    exact iff_of_false nofun nofun

end InfixCalculator
