import InfixCalculator.Number.Decimal

/-!
# The shortest decimal of a double

Many decimals read back as the same double.  The one to print has the fewest
digits, and among those of that many digits it is the nearest to the double; of
two that are equally near it is the larger.

A double has an exact decimal, since a unit of `2 ^ -1074` is a unit of
`10 ^ -1074` times a power of five.  Dropping digits from its end leaves the
double between two neighbours on a coarser decimal grid.  If any decimal of
that grid reads back as the double, so does one of these two.

## Main definitions

* `Magnitude.exactDecimal` — the decimal that a finite double is.
* `Decimal.below`, `Decimal.above` — its neighbours on a coarser grid.
* `Magnitude.shortestDecimal` — the coarsest grid's neighbour that reads back.
-/

namespace InfixCalculator

namespace Decimal

/-- The largest decimal at or below `d` that ends `dropped` digits before `d`
does. -/
def below (d : Decimal) (dropped : Nat) : Decimal :=
  scaled (d.mantissa / tenTo dropped) dropped d.places

/-- The decimal next to `below` on the same grid. -/
def above (d : Decimal) (dropped : Nat) : Decimal :=
  scaled (d.mantissa / tenTo dropped + 1) dropped d.places

/-- Whether `below` is strictly nearer than `above`. -/
def nearerBelow (d : Decimal) (dropped : Nat) : Bool :=
  2 * (d.mantissa % tenTo dropped) < tenTo dropped

/-- Whether a decimal reads back as a magnitude. -/
def readsAs (d : Decimal) (m : Magnitude) : Bool := d.magnitude.toBits = m.toBits

theorem readsAs_iff {d : Decimal} {m : Magnitude} :
    d.readsAs m = true ↔ d.magnitude.toBits = m.toBits := decide_eq_true_iff

end Decimal

namespace Magnitude

/-- **The decimal that a magnitude is.**  A significand that is shifted by less
than `unitPlaces` is divided by a power of two; each factor of the divisor takes
a place behind the point and a factor of five in the mantissa. -/
def exactDecimal (m : Magnitude) : Decimal :=
  let places := unitPlaces - m.shift
  ⟨m.significand <<< (m.shift - unitPlaces) * Nat.pow 5 places, places⟩

/-- A magnitude that a double stores is read off its exact decimal. -/
theorem magnitude_exactDecimal {m : Magnitude} (canonical : m.Canonical) :
    m.exactDecimal.magnitude = m := by
  have twos : 2 ^ (m.shift - unitPlaces) * 2 ^ unitPlaces
      = 2 ^ m.shift * 2 ^ (unitPlaces - m.shift) := by
    rw [← Nat.pow_add, ← Nat.pow_add]
    generalize unitPlaces = places
    rw [show m.shift - places + places = m.shift + (places - m.shift) by omega]
  have tens : tenTo (unitPlaces - m.shift)
      = 2 ^ (unitPlaces - m.shift) * 5 ^ (unitPlaces - m.shift) := Nat.mul_pow 2 5 _
  have numerators : m.significand * 2 ^ (m.shift - unitPlaces) * 5 ^ (unitPlaces - m.shift)
      * 2 ^ unitPlaces = m.significand * 2 ^ m.shift * tenTo (unitPlaces - m.shift) := by
    calc
      _ = m.significand * (2 ^ (m.shift - unitPlaces) * 2 ^ unitPlaces)
            * 5 ^ (unitPlaces - m.shift) := by ac_rfl
      _ = _ := by rw [twos, tens]; ac_rfl
  conv => rhs; rw [← nearest_units canonical (Decimal.tenTo_pos (unitPlaces - m.shift))]
  simp only [Decimal.magnitude, exactDecimal, units, unitsPerOne, Nat.shiftLeft_eq, Nat.pow_eq,
    Nat.one_mul]
  rw [numerators]

/-- The neighbour of `value` on a grid that reads back as `m`, the nearer one if
both do. -/
def neighbour? (m : Magnitude) (value : Decimal) (dropped : Nat) : Option Decimal :=
  let low := value.below dropped
  let high := value.above dropped
  if low.readsAs m && (value.nearerBelow dropped || !high.readsAs m) then some low
  else if high.readsAs m then some high
  else none

/-- **The search for the coarsest grid**, by structural recursion on the number
of digits dropped: the first grid on which a neighbour of `value` reads back as
`m` has the answer, and without any the exact decimal itself is the answer. -/
def shortestFrom (m : Magnitude) (value : Decimal) : Nat → Decimal
  | 0 => value.reduced
  | dropped + 1 => (neighbour? m value (dropped + 1)).getD (shortestFrom m value dropped)

@[simp] theorem shortestFrom_zero (m : Magnitude) (value : Decimal) :
    shortestFrom m value 0 = value.reduced := rfl

theorem shortestFrom_succ (m : Magnitude) (value : Decimal) (dropped : Nat) :
    shortestFrom m value (dropped + 1) =
      (neighbour? m value (dropped + 1)).getD (shortestFrom m value dropped) := rfl

/-- **The shortest decimal that reads back as a magnitude.**  The search starts
at the grid that leaves one digit. -/
def shortestDecimal (m : Magnitude) : Decimal :=
  let value := m.exactDecimal
  shortestFrom m value ((Nat.toDigits 10 value.mantissa).length - 1)

theorem readsAs_neighbour? {m : Magnitude} {value d : Decimal} {dropped : Nat}
    (h : neighbour? m value dropped = some d) : d.readsAs m = true := by
  simp only [neighbour?] at h
  split at h
  next low =>
    obtain rfl := Option.some.inj h
    exact (Bool.and_eq_true_iff.mp low).1
  next =>
    split at h
    next high => exact Option.some.inj h ▸ high
    next => cases h

theorem readsAs_shortestFrom {m : Magnitude} {value : Decimal} (h : value.readsAs m = true)
    (dropped : Nat) : (shortestFrom m value dropped).readsAs m = true := by
  induction dropped with
  | zero =>
      rw [shortestFrom_zero, Decimal.readsAs_iff, Decimal.magnitude_reduced]
      exact Decimal.readsAs_iff.mp h
  | succ dropped ih =>
      rw [shortestFrom_succ]
      cases hn : neighbour? m value (dropped + 1) with
      | none => exact ih
      | some d => exact readsAs_neighbour? hn

/-- **The shortest decimal reads back as the magnitude.** -/
theorem readsAs_shortestDecimal {m : Magnitude} (canonical : m.Canonical) :
    m.shortestDecimal.readsAs m = true :=
  readsAs_shortestFrom (Decimal.readsAs_iff.mpr (by rw [magnitude_exactDecimal canonical])) _

/-- **The shortest decimal of a magnitude is read as its double.** -/
theorem toFloat_shortestDecimal {m : Magnitude} (canonical : m.Canonical) :
    m.shortestDecimal.toFloat = (Binary64.finite false m).toFloat := by
  simp only [Decimal.toFloat, Binary64.toFloat,
    Decimal.readsAs_iff.mp (readsAs_shortestDecimal canonical)]

end Magnitude

end InfixCalculator
