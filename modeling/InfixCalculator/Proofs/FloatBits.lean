import Mathlib

/-!
# The bit pattern of a double

A double is determined by its bit pattern.  A pattern has three fields — a sign,
an exponent and a fraction — and reading a pattern as a number and writing the
number again gives the same pattern, unless it is one of the many patterns for
not-a-number, of which only one is ever stored.

## Main statements

* `pack_unpack` — reading and writing a valid pattern changes nothing.
* `ofBits_toBits` — a double is the double of its bit pattern.
* `toBits_ofBits_of_valid` — a valid pattern is the pattern of its double.
* `isFinite_iff` — the exponent field tells whether a double is finite.
* `toNat_toBits_neg` — negating flips the first bit.
* `beq_zero_iff` — two doubles equal zero.
-/

namespace InfixCalculator

namespace FloatBits

open Float.Model

/-- The patterns of doubles of 64 bits. -/
abbrev Pattern := BitVec (Format.numBits .binary64)

/-- A pattern is its three fields put together. -/
theorem packComponents_fields (b : Pattern) :
    UnpackedFloat.packComponents .binary64
      (UnpackedFloat.Sign.ofBitVec (UnpackedFloat.unpackSign b))
      (UnpackedFloat.unpackExponent b) (UnpackedFloat.unpackMantissa b) = b := by
  have sign : ∀ s : BitVec 1, (UnpackedFloat.Sign.ofBitVec s).toBitVec = s := by decide
  rw [UnpackedFloat.packComponents, sign]
  simp only [UnpackedFloat.unpackSign, UnpackedFloat.unpackExponent,
    UnpackedFloat.unpackMantissa, BitVec.extractLsb]
  ext i hi
  grind

/-- The same with the two lower fields under other names. -/
theorem packComponents_of_fields {b : Pattern} {exponent : BitVec 11} {fraction : BitVec 52}
    (he : UnpackedFloat.unpackExponent b = exponent)
    (hf : UnpackedFloat.unpackMantissa b = fraction) :
    UnpackedFloat.packComponents .binary64
      (UnpackedFloat.Sign.ofBitVec (UnpackedFloat.unpackSign b)) exponent fraction = b := by
  subst he hf
  exact packComponents_fields b

/-- A leading one before a fraction. -/
theorem toNat_one_append (fraction : BitVec 52) :
    (1#1 ++ fraction).toNat = 0x10000000000000 + fraction.toNat := by
  rw [BitVec.toNat_append, ← Nat.shiftLeft_add_eq_or_of_lt fraction.isLt]
  rfl

/-- Reading and writing changes nothing in a number without a leading one. -/
theorem pack_unpack_subnormal (b : Pattern)
    (he : UnpackedFloat.unpackExponent b = 0#11)
    (hf : UnpackedFloat.unpackMantissa b ≠ 0#52) :
    UnpackedFloat.pack .binary64 (UnpackedFloat.unpack .binary64 b) = b := by
  have fractionLt : (UnpackedFloat.unpackMantissa b).toNat < 0x10000000000000 :=
    (UnpackedFloat.unpackMantissa b).isLt
  have fractionNe : (UnpackedFloat.unpackMantissa b).toNat ≠ 0 := fun h =>
    hf (BitVec.eq_of_toNat_eq h)
  have log : (UnpackedFloat.unpackMantissa b).toNat.log2 < 52 :=
    (Nat.log2_lt fractionNe).mpr fractionLt
  rw [UnpackedFloat.unpack]
  simp only [he]
  rw [if_neg (by decide), if_pos trivial, dif_neg hf, UnpackedFloat.pack]
  simp only
  rw [if_neg (by decide), if_neg (by simp only [Format.mantissaBits]; omega),
    BitVec.ofNat_toNat, BitVec.setWidth_eq]
  exact packComponents_of_fields he rfl

/-- Reading and writing changes nothing in a number with a leading one. -/
theorem pack_unpack_normal (b : Pattern)
    (hone : UnpackedFloat.unpackExponent b ≠ -1#11)
    (hzero : UnpackedFloat.unpackExponent b ≠ 0#11) :
    UnpackedFloat.pack .binary64 (UnpackedFloat.unpack .binary64 b) = b := by
  have fractionLt : (UnpackedFloat.unpackMantissa b).toNat < 0x10000000000000 :=
    (UnpackedFloat.unpackMantissa b).isLt
  have exponentLt : (UnpackedFloat.unpackExponent b).toNat < 2048 :=
    (UnpackedFloat.unpackExponent b).isLt
  have exponentNe : (UnpackedFloat.unpackExponent b).toNat ≠ 2047 := fun h =>
    hone (BitVec.eq_of_toNat_eq h)
  have significand := toNat_one_append (UnpackedFloat.unpackMantissa b)
  have log : (1#1 ++ UnpackedFloat.unpackMantissa b).toNat.log2 = 52 := by
    rw [significand, Nat.log2_eq_iff (by omega)]
    constructor <;> omega
  have biased : ((UnpackedFloat.unpackExponent b).toNat
      - ((Format.binary64.exponentBias : Int) + (52 : Nat))
      + Format.binary64.exponentBias + (52 : Nat)).toNat
      = (UnpackedFloat.unpackExponent b).toNat := by
    omega
  rw [UnpackedFloat.unpack]
  simp only
  rw [if_neg hone, if_neg hzero, UnpackedFloat.pack]
  simp only [biased, log]
  rw [if_neg (show ¬ 2 ^ 11 ≤ _ by omega), if_pos (by rfl), BitVec.ofNat_toNat,
    BitVec.setWidth_eq]
  refine packComponents_of_fields rfl (BitVec.eq_of_toNat_eq ?_)
  rw [BitVec.toNat_ofNat, significand]
  show _ = (0x10000000000000 + _) % 0x10000000000000
  omega

/-- **Reading and writing a valid pattern changes nothing.** -/
theorem pack_unpack (b : Pattern) (valid : Format.binary64.Valid b) :
    UnpackedFloat.pack .binary64 (UnpackedFloat.unpack .binary64 b) = b := by
  by_cases hone : UnpackedFloat.unpackExponent b = -1#11
  · rw [UnpackedFloat.unpack]
    simp only
    rw [if_pos hone]
    split
    next hf => exact packComponents_of_fields hone hf
    next hf => exact (valid.eq_packedNaN hone hf).symm
  · by_cases hzero : UnpackedFloat.unpackExponent b = 0#11
    · by_cases hf : UnpackedFloat.unpackMantissa b = 0#52
      · rw [UnpackedFloat.unpack]
        simp only
        rw [if_neg hone, if_pos hzero, dif_pos hf]
        exact packComponents_of_fields hzero hf
      · exact pack_unpack_subnormal b hzero hf
    · exact pack_unpack_normal b hone hzero

/-- **A valid pattern is the pattern of its double.** -/
theorem toBits_ofBits_of_valid {bits : UInt64} (valid : Format.binary64.Valid bits.toBitVec) :
    (Float.ofBits bits).toBits = bits :=
  UInt64.eq_of_toBitVec_eq (pack_unpack bits.toBitVec valid)

/-- **A double is the double of its bit pattern.** -/
theorem ofBits_toBits (x : Float) : Float.ofBits x.toBits = x := by
  have same := toBits_ofBits_of_valid x.toModel.valid
  obtain ⟨⟨bits, valid⟩⟩ := x
  simp only [Float.ofBits, Float.toBits] at same ⊢
  congr
  generalize Float.Model.ofBits bits = y at same
  obtain ⟨bits', valid'⟩ := y
  simp only at same
  subst same
  rfl

/-- The exponent field of a pattern, in natural numbers. -/
theorem toNat_unpackExponent (b : Pattern) :
    (UnpackedFloat.unpackExponent b).toNat = b.toNat / 0x10000000000000 % 2048 := by
  simp [UnpackedFloat.unpackExponent, Nat.shiftRight_eq_div_pow]

/-- The fraction field of a pattern, in natural numbers. -/
theorem toNat_unpackMantissa (b : Pattern) :
    (UnpackedFloat.unpackMantissa b).toNat = b.toNat % 0x10000000000000 := by
  simp [UnpackedFloat.unpackMantissa]

/-- A pattern whose exponent field is not full is valid, and so is one whose
fraction is zero. -/
theorem valid_of_fields {b : Pattern}
    (h : b.toNat / 0x10000000000000 % 2048 ≠ 2047 ∨ b.toNat % 0x10000000000000 = 0) :
    Format.binary64.Valid b := by
  refine ⟨fun full nonzero => ?_⟩
  have exponent := toNat_unpackExponent b
  have fraction := toNat_unpackMantissa b
  rcases h with h | h
  · rw [full] at exponent
    exact absurd exponent.symm h
  · exact absurd (BitVec.eq_of_toNat_eq (fraction.trans (h.trans rfl))) nonzero

/-- A double whose exponent field is full and whose fraction is not zero has the
one pattern of not-a-number. -/
theorem eq_nan_of_fields {x : Float}
    (full : x.toBits.toNat / 0x10000000000000 % 2048 = 2047)
    (nonzero : x.toBits.toNat % 0x10000000000000 ≠ 0) :
    x.toBits = 0x7FF8000000000000 := by
  have exponent := toNat_unpackExponent x.toBits.toBitVec
  have fraction := toNat_unpackMantissa x.toBits.toBitVec
  refine UInt64.eq_of_toBitVec_eq (x.toModel.valid.eq_packedNaN ?_ fun zero => ?_)
  · exact BitVec.eq_of_toNat_eq (exponent.trans full)
  · refine nonzero (fraction.symm.trans ?_)
    exact congrArg BitVec.toNat zero

/-- **A pattern is that of a finite number** unless its exponent field is full. -/
theorem isFinite_unpack_iff (b : Pattern) :
    (UnpackedFloat.unpack .binary64 b).isFinite = true ↔
      b.toNat / 0x10000000000000 % 2048 ≠ 2047 := by
  have full : UnpackedFloat.unpackExponent b = -1#11 ↔
      b.toNat / 0x10000000000000 % 2048 = 2047 := by
    rw [← toNat_unpackExponent]
    exact ⟨fun same => congrArg BitVec.toNat same, fun same => BitVec.eq_of_toNat_eq same⟩
  rw [Ne, ← full, UnpackedFloat.unpack]
  simp only
  split
  next isFull => split <;> exact iff_of_false nofun (not_not_intro isFull)
  next notFull =>
    split
    next => split <;> exact iff_of_true rfl notFull
    next => exact iff_of_true rfl notFull

theorem isFinite_iff (x : Float) :
    x.isFinite = true ↔ x.toBits.toNat / 0x10000000000000 % 2048 ≠ 2047 :=
  isFinite_unpack_iff x.toBits.toBitVec

/-- A double that is not finite is not a number or infinite. -/
theorem isFinite_eq_false_iff (x : Float) :
    x.isFinite = false ↔ x.isNaN = true ∨ x.isInf = true := by
  rw [Float.isFinite, Float.isNaN, Float.isInf, Float.Model.isFinite, Float.Model.isNaN,
    Float.Model.isInf]
  cases x.toModel.unpack <;>
    simp [UnpackedFloat.isFinite, UnpackedFloat.isNaN, UnpackedFloat.isInf]

/-- A pattern in natural numbers, from its fields. -/
theorem toNat_packComponents (sign : UnpackedFloat.Sign) (exponent : BitVec 11)
    (fraction : BitVec 52) :
    (UnpackedFloat.packComponents .binary64 sign exponent fraction).toNat =
      (sign.toBitVec.toNat * 2048 + exponent.toNat) * 0x10000000000000 + fraction.toNat := by
  rw [UnpackedFloat.packComponents, BitVec.toNat_append, BitVec.toNat_append,
    ← Nat.shiftLeft_add_eq_or_of_lt fraction.isLt, ← Nat.shiftLeft_add_eq_or_of_lt exponent.isLt,
    Nat.shiftLeft_eq, Nat.shiftLeft_eq]

/-- **A number and its negation differ in the sign field only.** -/
theorem exists_pack_neg {u : UnpackedFloat} (number : u ≠ .notANumber) :
    ∃ sign exponent fraction,
      UnpackedFloat.pack .binary64 u =
        UnpackedFloat.packComponents .binary64 sign exponent fraction ∧
      UnpackedFloat.pack .binary64 u.neg =
        UnpackedFloat.packComponents .binary64 (-sign) exponent fraction := by
  cases u with
  | notANumber => exact absurd rfl number
  | infinity sign => exact ⟨sign, _, _, rfl, rfl⟩
  | zero sign => exact ⟨sign, _, _, rfl, rfl⟩
  | finite sign significand exponent positive =>
    simp only [UnpackedFloat.neg, UnpackedFloat.pack]
    split
    next => exact ⟨sign, _, _, rfl, rfl⟩
    next => split <;> exact ⟨sign, _, _, rfl, rfl⟩

/-- **Negating a finite number flips the first bit of its pattern.** -/
theorem toNat_toBits_neg {x : Float} (finite : x.isFinite = true) :
    (-x).toBits.toNat = (x.toBits.toNat + 0x8000000000000000) % 0x10000000000000000 := by
  have number : x.toModel.unpack ≠ .notANumber := by
    intro same
    rw [Float.isFinite, Float.Model.isFinite, same] at finite
    cases finite
  obtain ⟨sign, exponent, fraction, pattern, negated⟩ := exists_pack_neg number
  have before : x.toBits.toNat = _ := congrArg BitVec.toNat
    ((pack_unpack x.toModel.toBits.toBitVec x.toModel.valid).symm.trans pattern)
  have after : (-x).toBits.toNat = _ := congrArg BitVec.toNat negated
  rw [toNat_packComponents] at before after
  have flips : (-sign).toBitVec.toNat + sign.toBitVec.toNat = 1 := by cases sign <;> rfl
  have upper : exponent.toNat < 2048 := exponent.isLt
  have lower : fraction.toNat < 0x10000000000000 := fraction.isLt
  omega

/-- A finite number equals itself. -/
theorem beq_self {x : Float} (finite : x.isFinite = true) : (x == x) = true := by
  show x.toModel.unpack.beq x.toModel.unpack = true
  rw [Float.isFinite, Float.Model.isFinite] at finite
  rw [UnpackedFloat.beq]
  cases unpacked : x.toModel.unpack with
  | zero sign => rfl
  | finite sign significand exponent positive => cases sign <;> simp [UnpackedFloat.compare]
  | infinity _ | notANumber => simp [unpacked, UnpackedFloat.isFinite] at finite

/-- **The numbers that equal zero** are the two zeros. -/
theorem beq_zero_iff {x : Float} : (x == 0) = true ↔ x = 0 ∨ x = -0 := by
  constructor
  · intro same
    have zero : ∃ sign, x.toModel.unpack = .zero sign := by
      change x.toModel.unpack.beq (.zero .positive) = true at same
      rw [UnpackedFloat.beq] at same
      cases unpacked : x.toModel.unpack with
      | zero sign => exact ⟨sign, rfl⟩
      | finite sign => rw [unpacked] at same; cases sign <;> cases same
      | infinity sign => rw [unpacked] at same; cases sign <;> cases same
      | notANumber => rw [unpacked] at same; cases same
    obtain ⟨sign, zero⟩ := zero
    have pattern : x.toBits.toBitVec = UnpackedFloat.packedZero .binary64 sign :=
      (pack_unpack x.toModel.toBits.toBitVec x.toModel.valid).symm.trans (congrArg _ zero)
    rw [← ofBits_toBits x, ← UInt64.ofBitVec_toBitVec x.toBits, pattern]
    cases sign with
    | negative => right; rfl
    | positive => left; rfl
  · rintro (rfl | rfl) <;> decide +kernel

end FloatBits

end InfixCalculator
