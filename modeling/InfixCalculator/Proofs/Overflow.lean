import InfixCalculator.Number.Decimal
import InfixCalculator.Proofs.NumberText

/-!
# When a decimal overflows

The doubles end at `2 ^ 1024 - 2 ^ 971`.  A decimal above that is still read as the largest
of them if it is less than half a place above, and as infinity from there on, a tie
included: from `2 ^ 1024 - 2 ^ 970` (`Decimal.Overflows`).

The threshold lies in the last binade.  Below that the shift is too small for the bit
pattern to reach that of infinity, above it the shift alone is enough, and in the last
binade it is the rounding that decides.
-/

namespace InfixCalculator

/-! ## Rounding -/

theorem div_le_roundHalfEven (n d : Nat) : n / d ≤ roundHalfEven n d := by
  simp only [roundHalfEven]
  split
  · exact Nat.le_refl _
  · split <;> omega

theorem roundHalfEven_le (n d : Nat) : roundHalfEven n d ≤ n / d + 1 := by
  simp only [roundHalfEven]
  split
  · omega
  · split <;> omega

/-- **A fraction is rounded to an even number or above** from half a place below it on, the
tie included. -/
theorem le_roundHalfEven_iff {n d w : Nat} (pos : 0 < d) (nonzero : w ≠ 0) (even : w % 2 = 0) :
    w ≤ roundHalfEven n d ↔ (2 * w - 1) * d ≤ 2 * n := by
  obtain ⟨v, rfl⟩ := Nat.exists_eq_add_one_of_ne_zero nonzero
  have half : (2 * (v + 1) - 1) * d = 2 * (v * d) + d := by
    rw [show 2 * (v + 1) - 1 = 2 * v + 1 by omega, Nat.add_mul, Nat.mul_assoc, Nat.one_mul]
  have whole := Nat.div_add_mod' n d
  have rest := Nat.mod_lt n pos
  rw [half]
  rcases Nat.lt_trichotomy (n / d) v with below | rfl | above
  · have less := (Nat.div_lt_iff_lt_mul pos).mp below
    have rounded := roundHalfEven_le n d
    omega
  · -- The number below an even one is odd, so that a tie goes up.
    simp only [roundHalfEven]
    split
    · omega
    · split <;> omega
  · have enough := (Nat.le_div_iff_mul_le pos).mp above
    have rounded := div_le_roundHalfEven n d
    rw [Nat.succ_mul] at enough
    omega

namespace Magnitude

/-- The least number of units that is rounded to infinity: `2 ^ 1024 - 2 ^ 970`. -/
def overflowUnits : Nat := 0x3FFFFFFFFFFFFF <<< 2044

variable {n d : Nat}

/-- It does not matter which factor is shifted. -/
theorem shiftLeft_mul_eq (m d k : Nat) : (m <<< k) * d = m * (d <<< k) := by
  rw [Nat.shiftLeft_eq, Nat.shiftLeft_eq]
  ac_rfl

/-- A shift is no longer than another one, or one place longer and gives twice as much, or
still longer and gives four times as much at least. -/
theorem shiftLeft_cases (d k j : Nat) :
    k ≤ j ∧ d <<< k ≤ d <<< j ∨ k = j + 1 ∧ d <<< k = 2 * (d <<< j) ∨
      j + 2 ≤ k ∧ 4 * (d <<< j) ≤ d <<< k := by
  have mono : ∀ {a b}, a ≤ b → d <<< a ≤ d <<< b := fun le => by
    rw [Nat.shiftLeft_eq, Nat.shiftLeft_eq]
    exact Nat.mul_le_mul_left d (Nat.pow_le_pow_right (by decide) le)
  have next : d <<< (j + 1) = 2 * (d <<< j) := Nat.shiftLeft_succ d j
  have second : d <<< (j + 2) = 2 * (d <<< (j + 1)) := Nat.shiftLeft_succ d (j + 1)
  rcases Nat.lt_trichotomy k (j + 1) with small | rfl | large
  · exact .inl ⟨Nat.le_of_lt_succ small, mono (Nat.le_of_lt_succ small)⟩
  · exact .inr (.inl ⟨rfl, next⟩)
  · refine .inr (.inr ⟨large, ?_⟩)
    calc
      4 * (d <<< j) = 2 * (2 * (d <<< j)) := Nat.mul_assoc 2 2 _
      _ = d <<< (j + 2) := by rw [second, next]
      _ ≤ d <<< k := mono large

/-- **The shift leaves 53 binary digits before the point**, fewer only when it is zero. -/
theorem significand_bounds (pos : 0 < d) :
    n < 2 * fractionCount * (d <<< (nearest n d).shift) ∧
      ((nearest n d).shift ≠ 0 → fractionCount * (d <<< (nearest n d).shift) ≤ n) := by
  have shift : (nearest n d).shift = (n / d).log2 - 52 := rfl
  have scaled : ∀ k j, 2 ^ k * (d <<< j) = 2 ^ (k + j) * d := fun k j => by
    rw [Nat.shiftLeft_eq, Nat.pow_add]
    ac_rfl
  have one : fractionCount = 2 ^ 52 := rfl
  have two : 2 * fractionCount = 2 ^ 53 := rfl
  rw [two, one, scaled, scaled, shift]
  constructor
  · rw [← Nat.div_lt_iff_lt_mul pos]
    refine Nat.lt_of_lt_of_le Nat.lt_log2_self (Nat.pow_le_pow_right (by decide) ?_)
    omega
  · intro shifted
    rw [← Nat.le_div_iff_mul_le pos]
    refine (Nat.le_log2 ?_).mp (by omega)
    rintro none
    rw [none] at shifted
    exact shifted rfl

/-- **A fraction of units is rounded to infinity exactly from `overflowUnits` on.** -/
theorem infinityBits_le_toBits_nearest_iff (pos : 0 < d) :
    Binary64.infinityBits ≤ (nearest n d).toBits ↔ overflowUnits * d ≤ n := by
  obtain ⟨upper, lower⟩ := significand_bounds (n := n) pos
  have bits : (nearest n d).toBits =
      (nearest n d).shift * fractionCount + roundHalfEven n (d <<< (nearest n d).shift) := rfl
  have threshold : overflowUnits * d = 0x3FFFFFFFFFFFFF * (d <<< 2044) :=
    shiftLeft_mul_eq _ d 2044
  have cases := shiftLeft_cases d (nearest n d).shift 2044
  rw [bits, threshold]
  generalize (nearest n d).shift = shift at *
  have positive : 0 < d <<< shift := Nat.lt_of_lt_of_le pos Nat.le_shiftLeft
  have digits := (Nat.div_lt_iff_lt_mul positive).mpr upper
  have below := div_le_roundHalfEven n (d <<< shift)
  have above := roundHalfEven_le n (d <<< shift)
  generalize d <<< shift = place at *
  generalize d <<< 2044 = half at *
  unfold fractionCount Binary64.infinityBits at *
  rcases cases with ⟨small, shorter⟩ | ⟨rfl, double⟩ | ⟨large, longer⟩
  · omega
  · have rounds := le_roundHalfEven_iff (n := n) (w := 2 * 0x10000000000000) positive
      (by decide) (by decide)
    omega
  · have full := lower (by omega)
    have enough := (Nat.le_div_iff_mul_le positive).mpr full
    omega

/-- In place of units the threshold can be counted in ones. -/
theorem overflowUnits_eq : overflowUnits = 0x3FFFFFFFFFFFFF <<< 970 * unitsPerOne := by
  have places : 2044 = 970 + unitPlaces := by
    unfold unitPlaces
    rfl
  rw [overflowUnits, places, Nat.shiftLeft_add, unitsPerOne, Nat.shiftLeft_eq _ unitPlaces,
    Nat.one_shiftLeft]

end Magnitude

namespace Decimal

/-- **A decimal overflows** from `2 ^ 1024 - 2 ^ 970` on. -/
def Overflows (d : Decimal) : Prop := 0x3FFFFFFFFFFFFF <<< 970 * tenTo d.places ≤ d.mantissa

instance (d : Decimal) : Decidable d.Overflows := inferInstanceAs (Decidable (_ ≤ _))

theorem infinityBits_le_toBits_magnitude_iff {d : Decimal} :
    Binary64.infinityBits ≤ d.magnitude.toBits ↔ d.Overflows := by
  rw [magnitude, Magnitude.infinityBits_le_toBits_nearest_iff (tenTo_pos _),
    Magnitude.overflowUnits_eq, Nat.mul_right_comm]
  exact Nat.mul_le_mul_right_iff Magnitude.unitsPerOne_pos

/-- **A decimal is read as a finite double** unless it overflows. -/
theorem isFinite_toFloat_iff {d : Decimal} : d.toFloat.isFinite = true ↔ ¬ d.Overflows := by
  rw [toFloat, Binary64.isFinite_toFloat_finite, ← infinityBits_le_toBits_magnitude_iff]
  exact Nat.not_le.symm

/-- A decimal that overflows is read as infinity. -/
theorem toFloat_of_overflows {d : Decimal} (overflows : d.Overflows) :
    d.toFloat = (Binary64.infinite false).toFloat := by
  have most := Nat.min_eq_right (infinityBits_le_toBits_magnitude_iff.mpr overflows)
  rw [toFloat, Binary64.toFloat, Binary64.toFloat, most]

end Decimal

end InfixCalculator
