import Mathlib.Algebra.Order.Field.Power
import Mathlib.Algebra.Order.Floor.Semifield
import Mathlib.Data.Rat.Floor
import Mathlib.Tactic.FieldSimp
import Mathlib.Tactic.Positivity
import TemplateExpr.Proofs.Decimal.Rounding

namespace TemplateExpr

namespace Decimal

variable {d d' : Decimal} {x : Double.Finite}

def value (d : Decimal) : ℚ :=
  d.coefficient * 10 ^ d.exponent

def units (d : Decimal) : Nat :=
  Double.roundUnits d.numerator d.denominator

theorem length_digits_le {k : Nat} (hk : 0 < k) : d.digits.length ≤ k ↔ d.coefficient < 10 ^ k :=
  Nat.length_toDigits_le_iff (by decide) hk

theorem length_digits_pos (d : Decimal) : 0 < d.digits.length :=
  List.length_pos_iff.2 Nat.toDigits_ne_nil

theorem one_pos : (0 : ℚ) < Double.one :=
  Nat.cast_pos.2 Double.one_pos

theorem ten_zpow (e : ℤ) : (10 : ℚ) ^ e = 10 ^ e.toNat / 10 ^ (-e).toNat := by
  rcases le_total 0 e with h | h
  · obtain ⟨n, rfl⟩ := Int.eq_ofNat_of_zero_le h
    simp
  · obtain ⟨n, hn⟩ := Int.eq_ofNat_of_zero_le (neg_nonneg.2 h)
    obtain rfl : e = -n := by omega
    simp

theorem value_eq (d : Decimal) : d.value = d.numerator / d.denominator / Double.one := by
  have hone := one_pos.ne'
  simp only [value, numerator, denominator, ten_zpow, Nat.pow_eq, Nat.cast_mul, Nat.cast_pow,
    Nat.cast_ofNat]
  field_simp

theorem denominator_cast_pos (d : Decimal) : (0 : ℚ) < d.denominator :=
  Nat.cast_pos.2 d.denominator_pos

theorem value_le_value :
    d.value ≤ d'.value ↔ d.numerator * d'.denominator ≤ d'.numerator * d.denominator := by
  rw [value_eq, value_eq, div_le_div_iff_of_pos_right one_pos,
    div_le_div_iff₀ d.denominator_cast_pos d'.denominator_cast_pos]
  exact_mod_cast Iff.rfl

theorem value_le_magnitude {u : Nat} :
    d.value ≤ u / Double.one ↔ d.numerator ≤ u * d.denominator := by
  rw [value_eq, div_le_div_iff_of_pos_right one_pos, div_le_iff₀ d.denominator_cast_pos]
  exact_mod_cast Iff.rfl

theorem magnitude_le_value {u : Nat} :
    u / Double.one ≤ d.value ↔ u * d.denominator ≤ d.numerator := by
  rw [value_eq, div_le_div_iff_of_pos_right one_pos, le_div_iff₀ d.denominator_cast_pos]
  exact_mod_cast Iff.rfl

theorem units_mono (h : d.value ≤ d'.value) : d.units ≤ d'.units :=
  Double.roundUnits_mono d.denominator_pos d'.denominator_pos (value_le_value.1 h)

theorem units_congr (h : d.value = d'.value) : d.units = d'.units :=
  Nat.le_antisymm (units_mono h.le) (units_mono h.ge)

theorem units_le {u : Nat} (hu : Double.spacing u ∣ u) (h : d.value ≤ u / Double.one) :
    d.units ≤ u := by
  rw [← Double.roundUnits_mul_self d.denominator_pos hu]
  exact Double.roundUnits_mono_left _ (value_le_magnitude.1 h)

theorem le_units {u : Nat} (hu : Double.spacing u ∣ u) (h : u / Double.one ≤ d.value) :
    u ≤ d.units := by
  rw [← Double.roundUnits_mul_self d.denominator_pos hu]
  exact Double.roundUnits_mono_left _ (magnitude_le_value.1 h)

theorem toDouble_eq_finite {negative : Bool} :
    d.toDouble negative = .finite x ↔ x.negative = negative ∧ d.units = x.units := by
  rw [toDouble_eq_ofRatio, Double.ofRatio, units]
  constructor
  · intro h
    split at h
    · cases h
      exact ⟨rfl, rfl⟩
    · cases h
  · rintro ⟨rfl, h⟩
    rw [dif_pos (h ▸ x.lt_bound), Double.finite.injEq]
    exact Double.Finite.ext rfl h

end Decimal

end TemplateExpr
