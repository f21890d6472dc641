import Mathlib.Tactic.Ring
import TemplateExpr.Decimal.Basic
import TemplateExpr.Proofs.Double.Monotone

namespace TemplateExpr

namespace Double

theorem ofRatio_of_lt (negative : Bool) {n d : Nat} (h : 2 * n < d) :
    ofRatio negative n d = .zero negative := by
  have hzero : roundUnits n d = 0 := by
    have hquotient : n / d = 0 := Nat.div_eq_of_lt (by omega)
    have hspacing : spacing 0 = 1 := rfl
    have hmod : n % d = n := Nat.mod_eq_of_lt (by omega)
    rw [roundUnits, roundDiv, hquotient, hspacing, Nat.mul_one, Nat.mul_one, hmod, if_pos h,
      hquotient]
  rw [ofRatio, zero]
  simp only [hzero, bound_pos, dite_true]

theorem ofRatio_of_bound_le (negative : Bool) {n : Nat} (h : bound ≤ n) :
    ofRatio negative n 1 = .infinite negative := by
  rw [← Nat.div_one n] at h
  have hround : bound ≤ roundUnits n 1 := two_pow_le_roundUnits (k := 2098) (by decide) h
  rw [ofRatio, dif_neg (Nat.not_lt.2 hround)]

end Double

namespace Decimal

variable {d : Decimal}

theorem denominator_pos (d : Decimal) : 0 < d.denominator :=
  Nat.pow_pos (by decide)

theorem two_mul_one_le : 2 * Double.one ≤ 10 ^ 324 := by
  decide +kernel

theorem two_mul_numerator_lt (h : d.isTiny = true) : 2 * d.numerator < d.denominator := by
  have htiny : d.coefficient.log2 + 1 + d.exponent ≤ -324 := of_decide_eq_true h
  have hexponent : d.exponent.toNat = 0 := by omega
  have hdigits : 324 + (d.coefficient.log2 + 1) ≤ (-d.exponent).toNat := by omega
  rw [numerator, hexponent, denominator]
  calc 2 * (d.coefficient * 10 ^ 0 * Double.one)
    _ = 2 * Double.one * d.coefficient := by ring
    _ < 2 * Double.one * 2 ^ (d.coefficient.log2 + 1) :=
        Nat.mul_lt_mul_of_pos_left Nat.lt_log2_self (Nat.mul_pos (by decide) Double.one_pos)
    _ ≤ 10 ^ 324 * 10 ^ (d.coefficient.log2 + 1) :=
        Nat.mul_le_mul two_mul_one_le (Nat.pow_le_pow_left (by decide) _)
    _ = 10 ^ (324 + (d.coefficient.log2 + 1)) := by rw [← Nat.pow_add]
    _ ≤ 10 ^ (-d.exponent).toNat := Nat.pow_le_pow_right (by decide) hdigits

theorem bound_le_numerator (hne : d.coefficient ≠ 0) (h : d.isHuge = true) :
    Double.bound ≤ d.numerator := by
  have hhuge : 309 ≤ d.exponent := of_decide_eq_true h
  have hten : Double.bound ≤ 10 ^ 309 * Double.one := by decide +kernel
  have hpow {k : Nat} (hk : k ≤ d.exponent.toNat) : 10 ^ k ≤ 10 ^ d.exponent.toNat :=
    Nat.pow_le_pow_right (by decide) hk
  rw [numerator]
  calc Double.bound
    _ ≤ 10 ^ 309 * Double.one := hten
    _ ≤ 10 ^ d.exponent.toNat * Double.one :=
        Nat.mul_le_mul_right _ (hpow (by omega))
    _ ≤ d.coefficient * 10 ^ d.exponent.toNat * Double.one :=
        Nat.mul_le_mul_right _ (Nat.le_mul_of_pos_left _ (Nat.pos_of_ne_zero hne))

theorem toDouble_eq_ofRatio (negative : Bool) (d : Decimal) :
    d.toDouble negative = .ofRatio negative d.numerator d.denominator := by
  rw [toDouble]
  split
  · rename_i hsmall
    refine (Double.ofRatio_of_lt negative ?_).symm
    rcases hsmall with hzero | htiny
    · rw [numerator, hzero, Nat.zero_mul, Nat.zero_mul]
      exact d.denominator_pos
    · exact two_mul_numerator_lt htiny
  · rename_i hsmall
    split
    · rename_i hhuge
      have hone : d.denominator = 1 := by
        have hexponent : 309 ≤ d.exponent := of_decide_eq_true hhuge
        rw [denominator, show (-d.exponent).toNat = 0 by omega]
      rw [hone, Double.ofRatio_of_bound_le negative]
      exact bound_le_numerator (fun hzero => hsmall (.inl hzero)) hhuge
    · rfl

end Decimal

end TemplateExpr
