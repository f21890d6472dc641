import Mathlib.Data.Nat.Factorization.Basic
import Mathlib.Tactic.Ring
import TemplateExpr.Proofs.Value.NumberText

namespace TemplateExpr

namespace Decimal

open Numeral

variable {c z : ℕ} {d d' : Decimal}

theorem exponent_le_of_value_eq (hd : ¬ 10 ∣ d.coefficient) (h : d.value = d'.value) :
    d'.exponent ≤ d.exponent := by
  by_contra! hlt
  obtain ⟨k, hk⟩ := Int.le.dest hlt
  refine hd ⟨d'.coefficient * 10 ^ k, ?_⟩
  have hpos : (10 : ℚ) ^ d.exponent ≠ 0 := by positivity
  rw [value, value, ← hk, zpow_add₀ (by norm_num), zpow_add₀ (by norm_num), zpow_one,
    zpow_natCast] at h
  have hcoefficient : (d.coefficient : ℚ) = 10 * (d'.coefficient * 10 ^ k) :=
    mul_right_cancel₀ hpos (h.trans (by ring))
  exact_mod_cast hcoefficient

theorem eq_of_value_eq (hd : ¬ 10 ∣ d.coefficient) (hd' : ¬ 10 ∣ d'.coefficient)
    (h : d.value = d'.value) : d = d' := by
  have hexponent : d.exponent = d'.exponent :=
    le_antisymm (exponent_le_of_value_eq hd' h.symm) (exponent_le_of_value_eq hd h)
  have hpos : (10 : ℚ) ^ d'.exponent ≠ 0 := by positivity
  rw [value, value, hexponent] at h
  have hcoefficient : d.coefficient = d'.coefficient := by
    exact_mod_cast mul_right_cancel₀ hpos h
  cases d
  cases d'
  simp_all

theorem toDigits_mul_ten_pow (hc : c ≠ 0) (z : ℕ) :
    Nat.toDigits 10 (c * 10 ^ z) = Nat.toDigits 10 c ++ List.replicate z '0' := by
  induction z with
  | zero => simp
  | succ z ih =>
      have hpos : 0 < c * 10 ^ z := Nat.mul_pos (Nat.pos_of_ne_zero hc) (Nat.pow_pos (by decide))
      have hzero : Nat.toDigits 10 0 = ['0'] := rfl
      have hstep := Nat.toDigits_append_toDigits (b := 10) (d := 0) (by decide) hpos (by decide)
      rw [Nat.pow_succ, ← Nat.mul_assoc, Nat.mul_comm _ 10, ← Nat.add_zero (10 * _), ← hstep, ih,
        hzero, List.append_assoc, ← List.replicate_succ']

theorem units_natCast (c z : ℕ) :
    (⟨c, z⟩ : Decimal).units = Double.roundUnits (c * 10 ^ z * Double.one) 1 := by
  simp [units, numerator, denominator]

theorem text_whole (hc : c ≠ 0) (h : c * 10 ^ z < 10 ^ 21) :
    (⟨c, z⟩ : Decimal).text = Nat.toDigits 10 (c * 10 ^ z) := by
  have hwhole := toDigits_mul_ten_pow hc z
  have hlength : (Nat.toDigits 10 c).length + z ≤ 21 := by
    have hle := (Nat.length_toDigits_le_iff (b := 10) (by decide) (by decide)).2 h
    rwa [hwhole, List.length_append, List.length_replicate] at hle
  have hpos := (⟨c, z⟩ : Decimal).length_digits_pos
  have hdigits : (⟨c, z⟩ : Decimal).digits = Nat.toDigits 10 c := rfl
  have hpoint : (⟨c, z⟩ : Decimal).point = (⟨c, z⟩ : Decimal).digits.length + z := rfl
  rw [← hdigits] at hlength
  rw [text, if_pos (by omega), positional]
  rw [if_neg (by omega), if_neg (by omega), hdigits, hwhole, Int.toNat_natCast]

end Decimal

namespace Numeral

theorem toDouble_integer (k : ℤ) :
    toDouble ⟨decide (k < 0), ⟨k.natAbs, 0⟩⟩ = .ofInt k := by
  rw [toDouble, Decimal.toDouble_eq_ofRatio, Double.ofInt, Double.ofUnits,
    Double.decide_mul_one_lt, Int.natAbs_mul, Int.natAbs_natCast]
  simp [Decimal.numerator, Decimal.denominator]

end Numeral

theorem Double.two_pow_mul_one (k : ℕ) : Nat.pow 2 k * one = Nat.pow 2 (k + 1074) :=
  (Nat.pow_add 2 k 1074).symm

theorem Double.eq_of_roundUnits {n k : ℕ} (hk : k < Nat.pow 2 53)
    (h : roundUnits (n * one) 1 = k * one) : n = k := by
  rcases Nat.lt_or_ge n (Nat.pow 2 53) with hlt | hge
  · have hexact : roundUnits (n * one * 1) 1 = n * one :=
      roundUnits_mul_self Nat.one_pos (spacing_dvd_mul_two_pow 1074 hlt.le)
    rw [Nat.mul_one, h] at hexact
    exact (Nat.eq_of_mul_eq_mul_right one_pos hexact).symm
  · have hlarge : Nat.pow 2 53 * one ≤ roundUnits (n * one) 1 := by
      rw [two_pow_mul_one]
      refine two_pow_le_roundUnits (by decide) ?_
      rw [← two_pow_mul_one, Nat.div_one]
      exact Nat.mul_le_mul_right _ hge
    rw [h] at hlarge
    exact absurd (Nat.le_of_mul_le_mul_right hlarge one_pos) (Nat.not_le.2 hk)

namespace Number

open Numeral Decimal

variable {m n : Number}

def spelled : Number → ℚ
  | .integer k => k
  | .double x => Double.sign x.negative * (shortest x).value

def Fits : Number → Prop
  | .integer k => -2 ^ 63 ≤ k ∧ k < 2 ^ 64
  | .double _ => True

theorem written_text (n : Number) :
    ∃ a : Numeral, Written a n.text ∧ Double.sign a.negative * a.magnitude.value = n.spelled ∧
      a.toDouble.same n.toDouble = true := by
  cases n with
  | integer k =>
      obtain ⟨s, hs, hsign⟩ := exists_isSign_withSign (decide (k < 0))
      have hwritten := Written.mk hs (.whole (isDigits_toDigits k.natAbs)) .absent
      rw [List.append_nil, ← hsign, digitValue_toDigits, add_zero] at hwritten
      refine ⟨_, hwritten, ?_, ?_⟩
      · have hvalue : (⟨k.natAbs, 0⟩ : Decimal).value = k.natAbs := by
          rw [value, zpow_zero, mul_one]
        have hsigned := congrArg (Int.cast : ℤ → ℚ) (Double.sign_mul_natAbs k)
        rwa [Int.cast_mul, Int.cast_natCast, ← hvalue] at hsigned
      · rw [Numeral.toDouble_integer]
        exact Double.same_self (toDouble_ne_nan (.integer k))
  | double x =>
      have hread (a : Numeral) (h : Written a x.text) : a.toDouble.same (.finite x) = true := by
        rw [← Text.toDouble_of_written h]
        exact Double.Finite.same_toDouble_text x
      by_cases hx : x.units = 0
      · have hwritten : Written ⟨false, ⟨0, 0⟩⟩ x.text := by
          rw [Double.Finite.text_of_units_eq_zero hx]
          exact ofText?_eq_some.1 (by decide)
        refine ⟨_, hwritten, ?_, hread _ hwritten⟩
        simp [spelled, shortest, hx, value]
      · obtain ⟨a, hwritten, hnegative, hvalue⟩ := Double.Finite.written_text hx
        exact ⟨a, hwritten, by rw [hnegative, hvalue, spelled], hread a hwritten⟩

theorem isNumeric_of_mem_text (n : Number) : ∀ c ∈ n.text, isNumeric c = true := by
  obtain ⟨a, hwritten, -⟩ := n.written_text
  exact List.all_eq_true.1 hwritten.all_isNumeric

theorem same_toDouble_text (n : Number) :
    (Text.toDouble (String.ofList n.text)).same n.toDouble = true := by
  obtain ⟨a, hwritten, -, hsame⟩ := n.written_text
  rwa [Text.toDouble_of_written hwritten]

theorem spelled_eq_of_text_eq (h : m.text = n.text) : m.spelled = n.spelled := by
  obtain ⟨a, ha, hm, -⟩ := m.written_text
  obtain ⟨b, hb, hn, -⟩ := n.written_text
  rw [h] at ha
  have hab : a = b := Option.some.inj ((ofText?_eq_some.2 ha).symm.trans (ofText?_eq_some.2 hb))
  rw [← hm, ← hn, hab]

theorem value_shortest_pos {x : Double.Finite} (hx : x.units ≠ 0) : 0 < (shortest x).value :=
  mul_pos (Nat.cast_pos.2 (Nat.pos_of_ne_zero (coefficient_shortest_ne_zero hx))) (by positivity)

theorem text_of_spelled_eq_zero (h : n.spelled = 0) : n.text = ['0'] := by
  cases n with
  | integer k =>
      obtain rfl : k = 0 := Int.cast_eq_zero.1 h
      rfl
  | double x =>
      refine Double.Finite.text_of_units_eq_zero (by_contra fun hx => ?_)
      have hsign : (Double.sign x.negative : ℚ) ≠ 0 := by cases x.negative <;> decide
      exact mul_ne_zero hsign (value_shortest_pos hx).ne' h

theorem exists_reduced (hn : n.Fits) (h : n.spelled ≠ 0) :
    ∃ d : Decimal, ¬ 10 ∣ d.coefficient ∧ d.value = |n.spelled| ∧
      n.text = withSign (decide (n.spelled < 0)) d.text := by
  cases n with
  | integer k =>
      have hk : k.natAbs ≠ 0 := by
        intro hk
        exact h (by rw [spelled, Int.natAbs_eq_zero.1 hk, Int.cast_zero])
      obtain ⟨z, c, hc, hpower⟩ := Nat.exists_eq_pow_mul_and_not_dvd hk 10 (by decide)
      rw [Nat.mul_comm] at hpower
      have hsmall : c * 10 ^ z < 10 ^ 21 := by
        obtain ⟨hlower, hupper⟩ := hn
        omega
      have hne : c ≠ 0 := fun hzero => hc (hzero.symm ▸ Nat.dvd_zero 10)
      refine ⟨⟨c, z⟩, hc, ?_, ?_⟩
      · rw [value, zpow_natCast, spelled, ← Int.cast_abs, ← Int.natCast_natAbs, hpower]
        push_cast
        rfl
      · rw [text_whole hne hsmall, ← hpower, text, spelled]
        simp
  | double x =>
      have hx : x.units ≠ 0 := by
        intro hx
        exact h (by simp [spelled, shortest, hx, value])
      have hpos := value_shortest_pos hx
      refine ⟨shortest x, not_ten_dvd_shortest hx, ?_, ?_⟩
      · rw [spelled, abs_mul, abs_of_pos hpos]
        cases x.negative <;> simp [Double.sign]
      · rw [text, Double.Finite.text_of_units_ne_zero hx, spelled]
        cases x.negative <;> simp [Double.sign, hpos, hpos.not_gt]

theorem text_eq_iff (hm : m.Fits) (hn : n.Fits) : m.text = n.text ↔ m.spelled = n.spelled := by
  refine ⟨spelled_eq_of_text_eq, fun h => ?_⟩
  by_cases hzero : m.spelled = 0
  · rw [text_of_spelled_eq_zero hzero, text_of_spelled_eq_zero (h ▸ hzero)]
  · obtain ⟨d, hd, hvalue, htext⟩ := exists_reduced hm hzero
    obtain ⟨d', hd', hvalue', htext'⟩ := exists_reduced hn (h ▸ hzero)
    have heq : d = d' := eq_of_value_eq hd hd' (by rw [hvalue, hvalue', h])
    rw [htext, htext', heq, h]

theorem spelled_of_signedUnits {x : Double.Finite} {k : ℤ} (hk : k.natAbs < Nat.pow 2 53)
    (hx : x.signedUnits = k * Double.one) : (double x).spelled = k := by
  have hunits := Double.Finite.units_of_signedUnits hx
  have hsign := congrArg (Int.cast : ℤ → ℚ) (Double.Finite.sign_mul_of_signedUnits hx)
  rw [Int.cast_mul, Int.cast_natCast] at hsign
  suffices hvalue : (shortest x).value = k.natAbs by rw [spelled, hvalue, hsign]
  by_cases hzero : x.units = 0
  · have hkzero : k.natAbs = 0 := by
      rw [hzero] at hunits
      exact (Nat.mul_eq_zero.1 hunits.symm).resolve_right Double.one_pos.ne'
    simp [shortest, hzero, hkzero, value]
  · have hwhole : (⟨k.natAbs, 0⟩ : Decimal).units = x.units := by
      have hround := units_natCast k.natAbs 0
      rw [Nat.cast_zero, Nat.pow_zero, Nat.mul_one, ← hunits, ← Nat.mul_one x.units] at hround
      exact hround.trans (Double.roundUnits_mul_self Nat.one_pos x.spacing_dvd)
    obtain ⟨e, he⟩ := Int.eq_ofNat_of_zero_le
      (show 0 ≤ (shortest x).exponent from exponent_le_shortest hzero hwhole)
    have hshortest : (shortest x).units = k.natAbs * Double.one :=
      (units_shortest x).trans hunits
    rw [show shortest x = ⟨(shortest x).coefficient, e⟩ from he ▸ rfl] at hshortest ⊢
    rw [units_natCast] at hshortest
    rw [value, zpow_natCast, ← Double.eq_of_roundUnits hk hshortest]
    push_cast
    rfl

def Small : Number → Prop
  | .integer k => k.natAbs < Nat.pow 2 53
  | .double _ => True

theorem Small.fits (h : n.Small) : n.Fits := by
  cases n with
  | integer k =>
      have hk : k.natAbs < 2 ^ 53 := h
      rw [Fits]
      omega
  | double x => trivial

theorem spelled_eq_of_small (hm : m.Small) (hn : n.Small)
    (h : m.toDouble.same n.toDouble = true) : m.spelled = n.spelled := by
  cases m with
  | integer k =>
      obtain ⟨x, hx, hk⟩ := Double.isInt_ofInt hm
      rw [toDouble, hx] at h
      cases n with
      | integer l =>
          obtain ⟨y, hy, hl⟩ := Double.isInt_ofInt hn
          rw [toDouble, hy, Double.same_finite, hk, hl] at h
          rw [Int.eq_of_mul_eq_mul_right Double.one_ne_zero h]
      | double y =>
          rw [toDouble, Double.same_finite, hk] at h
          exact (spelled_of_signedUnits hm h.symm).symm
  | double x =>
      cases n with
      | integer l =>
          obtain ⟨y, hy, hl⟩ := Double.isInt_ofInt hn
          rw [toDouble, toDouble, hy, Double.same_finite, hl] at h
          exact spelled_of_signedUnits hn h
      | double y => exact spelled_eq_of_text_eq (Double.Finite.text_eq_iff.2 h)

end Number

end TemplateExpr
