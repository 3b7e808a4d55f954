/-!
# Doubles as exact numbers

Every finite double is a whole number of units of `2 ^ -1074`, the least
positive double.  Dividing, rounding and printing can therefore be done in
natural numbers, and nothing is lost on the way.

## Main definitions

* `Magnitude` — a finite double without its sign: a significand and a number of
  binary places it is shifted up, counted in units.
* `Magnitude.nearest` — the magnitude nearest to a fraction of units, a half
  going to the even neighbour.
* `Binary64` — what a double stands for: not a number, an infinity, or a signed
  magnitude; `Binary64.ofFloat` and `Binary64.toFloat` go there and back.
* `truncatedRemainder`, `exactNatural?` — the exact remainder of two doubles,
  and the natural number that a double is.
-/

namespace InfixCalculator

/-- The whole number nearest to `numerator / denominator`; a half goes to the
even neighbour. -/
def roundHalfEven (numerator denominator : Nat) : Nat :=
  let quotient := numerator / denominator
  let twice := 2 * (numerator % denominator)
  if twice < denominator then quotient
  else if denominator < twice then quotient + 1
  else quotient + quotient % 2

/-- A fraction that is whole is its own rounding. -/
theorem roundHalfEven_mul_right (n : Nat) {d : Nat} (hd : 0 < d) :
    roundHalfEven (n * d) d = n := by
  simp [roundHalfEven, Nat.mul_div_cancel n hd, hd]

/-- Both parts of a fraction can be multiplied by one number. -/
theorem roundHalfEven_mul_mul (n d : Nat) {k : Nat} (hk : 0 < k) :
    roundHalfEven (n * k) (d * k) = roundHalfEven n d := by
  have lt_iff : ∀ a b : Nat, a * k < b * k ↔ a < b := fun _ _ => Nat.mul_lt_mul_right hk
  simp only [roundHalfEven, Nat.mul_div_mul_right _ _ hk, Nat.mul_mod_mul_right,
    ← Nat.mul_assoc, lt_iff]

/-- How many fractions a significand with a given leading digit can have:
`2 ^ 52`. -/
def fractionCount : Nat := 0x10000000000000

/-- **A finite double without its sign**: `significand * 2 ^ shift` units of
`2 ^ -1074`. -/
structure Magnitude where
  /-- The digits that the double stores, its leading one included. -/
  significand : Nat
  /-- How far the significand is shifted up from the units. -/
  shift : Nat
deriving DecidableEq, Repr

namespace Magnitude

/-- How many binary places behind the point the unit has. -/
@[irreducible] def unitPlaces : Nat := 1074

/-- How many units make up one: `2 ^ 1074`. -/
def unitsPerOne : Nat := 1 <<< unitPlaces

theorem unitsPerOne_pos : 0 < unitsPerOne :=
  Nat.lt_of_lt_of_le Nat.one_pos Nat.le_shiftLeft

/-- How many units of `2 ^ -1074` a magnitude has. -/
def units (m : Magnitude) : Nat := m.significand <<< m.shift

/-- The magnitude that a bit pattern without sign stores.  The exponent field
counts from one for a significand with a leading one, and is zero without. -/
def ofBits (bits : Nat) : Magnitude :=
  let shift := bits / fractionCount - 1
  ⟨bits - shift * fractionCount, shift⟩

/-- The bit pattern without sign of a magnitude.  The leading one of the
significand is what carries the exponent field from the shift to one more, so a
significand that rounding took to `2 ^ 53` is carried into the field too. -/
def toBits (m : Magnitude) : Nat := m.shift * fractionCount + m.significand

@[simp] theorem toBits_ofBits (bits : Nat) : (ofBits bits).toBits = bits := by
  simp only [ofBits, toBits, fractionCount]
  omega

/-- **A magnitude that a double stores**: its significand has at most 53 binary
digits, and exactly 53 if it is shifted up. -/
structure Canonical (m : Magnitude) : Prop where
  /-- There are at most 53 binary digits. -/
  significand_lt : m.significand < 2 * fractionCount
  /-- A significand that is shifted up has its leading one. -/
  shift_eq_or : m.shift = 0 ∨ fractionCount ≤ m.significand

theorem canonical_ofBits (bits : Nat) : (ofBits bits).Canonical := by
  constructor <;> simp only [ofBits, fractionCount] <;> omega

/-- **The magnitude nearest to a fraction of units**, a half going to the one
whose last bit is zero.  The shift leaves 53 binary digits before the point,
fewer only when there are no lower units. -/
def nearest (numerator denominator : Nat) : Magnitude :=
  let shift := (numerator / denominator).log2 - 52
  ⟨roundHalfEven numerator (denominator <<< shift), shift⟩

/-- Both parts of a fraction can be multiplied by one number. -/
theorem nearest_mul_mul (numerator denominator : Nat) {k : Nat} (hk : 0 < k) :
    nearest (numerator * k) (denominator * k) = nearest numerator denominator := by
  simp only [nearest, Nat.mul_div_mul_right _ _ hk, Nat.shiftLeft_eq]
  rw [Nat.mul_right_comm, roundHalfEven_mul_mul _ _ hk]

/-- Shifting up adds to the logarithm. -/
theorem log2_shiftLeft {n : Nat} (hn : n ≠ 0) (k : Nat) : (n <<< k).log2 = n.log2 + k := by
  induction k with
  | zero => rfl
  | succ k ih =>
      have nonzero : n <<< k ≠ 0 := by
        rw [Nat.shiftLeft_eq]
        exact Nat.mul_ne_zero hn (Nat.ne_of_gt (Nat.two_pow_pos k))
      rw [Nat.shiftLeft_succ, Nat.log2_two_mul nonzero, ih]
      rfl

/-- The shift of a canonical magnitude is read off its number of units. -/
theorem log2_units_sub {m : Magnitude} (canonical : m.Canonical) :
    m.units.log2 - 52 = m.shift := by
  obtain ⟨significand, shift⟩ := m
  obtain ⟨lt, or⟩ := canonical
  simp only [fractionCount, units] at lt or ⊢
  rcases Nat.eq_zero_or_pos significand with rfl | pos
  · have : shift = 0 := by omega
    subst this
    rfl
  · have log := log2_shiftLeft (Nat.ne_of_gt pos) shift
    have upper : significand.log2 < 53 := (Nat.log2_lt (by omega)).mpr (by omega)
    rw [log]
    rcases or with rfl | full
    · omega
    · have lower : 52 ≤ significand.log2 := (Nat.le_log2 (by omega)).mpr (by omega)
      omega

/-- **A magnitude that a double stores is its own rounding.** -/
theorem nearest_units {m : Magnitude} (canonical : m.Canonical) {d : Nat} (hd : 0 < d) :
    nearest (m.units * d) d = m := by
  have numerator : m.units * d = m.significand * (d <<< m.shift) := by
    simp only [units, Nat.shiftLeft_eq]
    ac_rfl
  have denominator : 0 < d <<< m.shift := by
    rw [Nat.shiftLeft_eq]
    exact Nat.mul_pos hd (Nat.two_pow_pos _)
  simp only [nearest, Nat.mul_div_cancel _ hd, log2_units_sub canonical]
  rw [numerator, roundHalfEven_mul_right _ denominator]

end Magnitude

/-- What a double stands for. -/
inductive Binary64 where
  /-- Not a number. -/
  | nan
  /-- One of the two infinities. -/
  | infinite (negative : Bool)
  /-- A finite number; zero has both signs. -/
  | finite (negative : Bool) (magnitude : Magnitude)
deriving DecidableEq, Repr

namespace Binary64

/-- The bit pattern of positive infinity; those of the finite magnitudes are
below it, those of not-a-number above. -/
def infinityBits : Nat := 0x7FF0000000000000

/-- The place of the sign in a bit pattern: `2 ^ 63`. -/
def signPlace : Nat := 0x8000000000000000

/-- What the sign adds to a bit pattern. -/
def signBit (negative : Bool) : Nat := if negative then signPlace else 0

/-- Reads what a double stands for off its bit pattern. -/
def ofFloat (x : Float) : Binary64 :=
  let bits := x.toBits.toNat
  let negative := decide (signPlace ≤ bits)
  let size := bits % signPlace
  if size < infinityBits then .finite negative (.ofBits size)
  else if size = infinityBits then .infinite negative
  else .nan

/-- The double that stands for a number.  A magnitude above the largest finite
one is an infinity. -/
def toFloat : Binary64 → Float
  | .nan => Float.ofBits 0x7FF8000000000000
  | .infinite negative =>
      Float.ofBits (UInt64.ofNat (signBit negative + infinityBits))
  | .finite negative magnitude =>
      Float.ofBits (UInt64.ofNat (signBit negative + min magnitude.toBits infinityBits))

theorem canonical_of_ofFloat {x : Float} {negative : Bool} {m : Magnitude}
    (h : ofFloat x = finite negative m) : m.Canonical := by
  simp only [ofFloat] at h
  split at h
  next =>
    obtain ⟨-, rfl⟩ := finite.inj h
    exact Magnitude.canonical_ofBits _
  next =>
    split at h <;> cases h

end Binary64

/-- The largest natural number below which every natural number is a double of
its own: `2 ^ 53 - 1`. -/
def largestExactNatural : Nat := 2 * fractionCount - 1

/-- **The natural number that a double is**, if it is one and is at most
`largestExactNatural`.  Negative zero is zero. -/
def exactNatural? (x : Float) : Option Nat :=
  match Binary64.ofFloat x with
  | .finite negative magnitude =>
      let whole := magnitude.units / Magnitude.unitsPerOne
      if magnitude.units % Magnitude.unitsPerOne = 0 ∧ whole ≤ largestExactNatural
          ∧ (negative → whole = 0) then
        some whole
      else
        none
  | _ => none

/-- **The remainder of a division that truncates its quotient.**  It has the
sign of the dividend and is exact: the remainder of two numbers of units is a
number of units.  Dividing by an infinity leaves a finite dividend as it is;
nothing else has a remainder, nor has division by zero. -/
def truncatedRemainder (dividend divisor : Float) : Float :=
  match Binary64.ofFloat dividend, Binary64.ofFloat divisor with
  | .finite negative m, .finite _ d =>
      if d.units = 0 then Binary64.nan.toFloat
      else (Binary64.finite negative (.nearest (m.units % d.units) 1)).toFloat
  | .finite _ _, .infinite _ => dividend
  | _, _ => Binary64.nan.toFloat

end InfixCalculator
