import Mathlib.Tactic.Ring
import TemplateExpr.Value.Basic

namespace TemplateExpr

namespace Double

variable {a b : Double} {m n : Int}

theorem one_ne_zero : (one : Int) ≠ 0 :=
  Int.natCast_ne_zero.2 (Nat.ne_of_gt one_pos)

def sign (negative : Bool) : Int :=
  if negative then -1 else 1

theorem sign_not (s : Bool) : sign (!s) = -sign s := by
  cases s <;> rfl

theorem sign_xor (s t : Bool) : sign (s ^^ t) = sign s * sign t := by
  cases s <;> cases t <;> rfl

theorem sign_mul_natAbs (n : Int) : sign (decide (n < 0)) * n.natAbs = n := by
  by_cases h : n < 0 <;> simp only [sign, h, decide_true, decide_false, if_true, Bool.false_eq_true,
    if_false] <;> omega

theorem Finite.signedUnits_eq (x : Finite) : x.signedUnits = sign x.negative * x.units := by
  unfold signedUnits sign
  split <;> omega

theorem Finite.natAbs_signedUnits (x : Finite) : x.signedUnits.natAbs = x.units := by
  unfold signedUnits
  split <;> omega

theorem Finite.units_of_signedUnits {x : Finite} (h : x.signedUnits = n * one) :
    x.units = n.natAbs * one := by
  rw [← x.natAbs_signedUnits, h, Int.natAbs_mul, Int.natAbs_natCast]

theorem Finite.sign_mul_of_signedUnits {x : Finite} (h : x.signedUnits = n * one) :
    sign x.negative * n.natAbs = n := by
  refine Int.eq_of_mul_eq_mul_right one_ne_zero ?_
  rw [← h, x.signedUnits_eq, units_of_signedUnits h, Int.natCast_mul, Int.mul_assoc]

def IsInt (a : Double) (n : Int) : Prop :=
  ∃ x, a = .finite x ∧ x.signedUnits = n * one

theorem mul_two_pow_lt {k i j l : Nat} (h : k < Nat.pow 2 i) (hl : i + j ≤ l) :
    k * Nat.pow 2 j < Nat.pow 2 l := by
  have hmul : k * 2 ^ j < 2 ^ i * 2 ^ j := Nat.mul_lt_mul_of_pos_right h (Nat.two_pow_pos j)
  rw [← Nat.pow_add] at hmul
  exact Nat.lt_of_lt_of_le hmul (Nat.pow_le_pow_right (by decide) hl)

def Finite.ofNat (negative : Bool) {k : Nat} (h : k < Nat.pow 2 53) : Finite where
  negative := negative
  units := k * one
  spacing_dvd := spacing_dvd_mul_two_pow 1074 (Nat.le_of_lt h)
  lt_bound := mul_two_pow_lt h (by decide : 53 + 1074 ≤ 2098)

theorem ofRatio_mul_one (negative : Bool) {k d : Nat} (hk : k < Nat.pow 2 53) (hd : 0 < d) :
    ofRatio negative (k * one * d) d = .finite (.ofNat negative hk) :=
  ofRatio_units (.ofNat negative hk) hd

theorem isInt_ofRatio (negative : Bool) {k d : Nat} (hk : k < Nat.pow 2 53) (hd : 0 < d) :
    (ofRatio negative (k * one * d) d).IsInt (sign negative * k) := by
  refine ⟨_, ofRatio_mul_one negative hk hd, ?_⟩
  rw [Finite.signedUnits_eq, Finite.ofNat, Int.natCast_mul, Int.mul_assoc]

theorem decide_mul_one_lt (n : Int) : decide (n * one < 0) = decide (n < 0) := by
  have hpos : (0 : Int) < one := Int.natCast_pos.2 one_pos
  rw [decide_eq_decide, Int.mul_neg_iff]
  omega

theorem isInt_ofUnits (h : n.natAbs < Nat.pow 2 53) : (ofUnits (n * one)).IsInt n := by
  have hint := isInt_ofRatio (decide (n < 0)) h Nat.one_pos
  rw [sign_mul_natAbs, Nat.mul_one] at hint
  rwa [ofUnits, decide_mul_one_lt, Int.natAbs_mul, Int.natAbs_natCast]

theorem isInt_ofInt (h : n.natAbs < Nat.pow 2 53) : (ofInt n).IsInt n :=
  isInt_ofUnits h

theorem isInt_zero (negative : Bool) : (zero negative).IsInt 0 :=
  ⟨_, rfl, by rw [Finite.signedUnits_eq, Int.zero_mul]; exact Int.mul_zero _⟩

theorem IsInt.neg (ha : a.IsInt m) : a.neg.IsInt (-m) := by
  obtain ⟨x, rfl, hx⟩ := ha
  refine ⟨_, rfl, ?_⟩
  rw [Finite.signedUnits_eq] at hx ⊢
  rw [sign_not, Int.neg_mul, hx, Int.neg_mul]

theorem IsInt.add (ha : a.IsInt m) (hb : b.IsInt n) (h : (m + n).natAbs < Nat.pow 2 53) :
    (a.add b).IsInt (m + n) := by
  obtain ⟨x, rfl, hx⟩ := ha
  obtain ⟨y, rfl, hy⟩ := hb
  have hsum : x.signedUnits + y.signedUnits = (m + n) * one := by rw [hx, hy, Int.add_mul]
  change (x.add y).IsInt (m + n)
  simp only [Finite.add, hsum]
  split
  · rename_i hzero
    rw [(Int.mul_eq_zero.1 hzero).resolve_right one_ne_zero]
    exact isInt_zero _
  · exact isInt_ofUnits h

theorem IsInt.sub (ha : a.IsInt m) (hb : b.IsInt n) (h : (m - n).natAbs < Nat.pow 2 53) :
    (a.sub b).IsInt (m - n) := by
  rw [Int.sub_eq_add_neg] at h ⊢
  exact ha.add hb.neg h

theorem IsInt.mul (ha : a.IsInt m) (hb : b.IsInt n) (h : (m * n).natAbs < Nat.pow 2 53) :
    (a.mul b).IsInt (m * n) := by
  obtain ⟨x, rfl, hx⟩ := ha
  obtain ⟨y, rfl, hy⟩ := hb
  rw [Int.natAbs_mul] at h
  have hint := isInt_ofRatio (x.negative ^^ y.negative) h one_pos
  have hunits : m.natAbs * n.natAbs * one * one = x.units * y.units := by
    rw [Finite.units_of_signedUnits hx, Finite.units_of_signedUnits hy]
    ring
  have hsign : sign (x.negative ^^ y.negative) * (m.natAbs * n.natAbs : Nat) = m * n := by
    rw [sign_xor, Int.natCast_mul]
    calc sign x.negative * sign y.negative * (m.natAbs * n.natAbs)
      _ = (sign x.negative * m.natAbs) * (sign y.negative * n.natAbs) := by ring
      _ = m * n := by rw [Finite.sign_mul_of_signedUnits hx, Finite.sign_mul_of_signedUnits hy]
  rwa [hunits, hsign] at hint

theorem IsInt.compare? (ha : a.IsInt m) (hb : b.IsInt n) :
    a.compare? b = some (compare m n) := by
  obtain ⟨x, rfl, hx⟩ := ha
  obtain ⟨y, rfl, hy⟩ := hb
  have hpos : (0 : Int) < one := Int.natCast_pos.2 one_pos
  have hcompare : compare (m * one) (n * one) = compare m n := by
    simp only [compare, compareOfLessAndEq, Int.mul_lt_mul_right hpos,
      Int.mul_eq_mul_right_iff one_ne_zero]
  rw [← hcompare, ← hx, ← hy]
  rfl

theorem IsInt.toInt? {x : Finite} (h : (Double.finite x).IsInt n) : x.toInt? = some n := by
  obtain ⟨_, he, hx⟩ := h
  cases he
  have hdvd : one ∣ x.units := Finite.units_of_signedUnits hx ▸ Nat.dvd_mul_left _ _
  rw [Finite.toInt?, if_pos hdvd, hx, Int.mul_ediv_cancel _ one_ne_zero]

end Double

theorem Number.ofDouble?_of_isInt {a : Double} {n : Int} (ha : a.IsInt n)
    (h : n.natAbs < Nat.pow 2 53) : Number.ofDouble? a = some (.integer n) := by
  obtain ⟨x, rfl, hx⟩ := ha
  rw [ofDouble?, Double.IsInt.toInt? ⟨x, rfl, hx⟩]
  simp [Option.filter, h]

theorem Value.ofDouble_of_isInt {a : Double} {n : Int} (ha : a.IsInt n)
    (h : n.natAbs < Nat.pow 2 53) : Value.ofDouble a = .integer n := by
  rw [ofDouble, Number.ofDouble?_of_isInt ha h]
  rfl

end TemplateExpr
