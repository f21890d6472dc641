import TemplateExpr.Expr.Basic
import TemplateExpr.Proofs.Decimal.Rounding
import TemplateExpr.Proofs.Decimal.Written
import TemplateExpr.Proofs.Double.Integer

namespace TemplateExpr

variable {n : Nat}

theorem Double.ofInt_natCast (h : n < Nat.pow 2 53) :
    ofInt n = .finite (Finite.ofNat false h) := by
  have hsign : decide (((n * one : Nat) : Int) < 0) = false :=
    decide_eq_false (Int.not_lt.2 (Int.natCast_nonneg _))
  rw [ofInt, ofUnits, ← Int.natCast_mul, hsign, Int.natAbs_natCast,
    ← ofRatio_mul_one false h Nat.one_pos, Nat.mul_one]

theorem Decimal.toDouble_whole (h : n < Nat.pow 2 53) :
    Decimal.toDouble false ⟨n, 0⟩ = .ofInt n := by
  rw [Double.ofInt_natCast h, toDouble_eq_ofRatio, ← Double.ofRatio_mul_one false h Nat.one_pos]
  simp [numerator, denominator]

def Decimal.whole? (d : Decimal) : Option Nat :=
  let n := d.coefficient * Nat.pow 10 d.exponent.toNat
  if d.denominator ∣ n then some (n / d.denominator) else none

namespace Decimal

variable {d : Decimal}

theorem mul_denominator_of_whole? (h : d.whole? = some n) :
    n * d.denominator = d.coefficient * Nat.pow 10 d.exponent.toNat := by
  simp only [whole?] at h
  split at h
  · rename_i hdvd
    cases h
    exact Nat.div_mul_cancel hdvd
  · cases h

theorem isInt_toDouble (negative : Bool) (h : d.whole? = some n) (hn : n < Nat.pow 2 53) :
    (d.toDouble negative).IsInt (Double.sign negative * n) := by
  have hnumerator : d.numerator = n * Double.one * d.denominator := by
    rw [numerator, ← mul_denominator_of_whole? h, Nat.mul_right_comm]
  rw [toDouble_eq_ofRatio, hnumerator]
  exact Double.isInt_ofRatio negative hn d.denominator_pos

end Decimal

def Numeral.integer? (n : Numeral) : Option Int :=
  n.magnitude.whole?.map fun m : Nat => Double.sign n.negative * m

theorem Numeral.isInt_toDouble {n : Numeral} {k : Int} (h : n.integer? = some k)
    (hk : k.natAbs < Nat.pow 2 53) : n.toDouble.IsInt k := by
  obtain ⟨m, hm, rfl⟩ := Option.map_eq_some_iff.1 h
  have habs : (Double.sign n.negative * m).natAbs = m := by
    cases n.negative <;> simp [Double.sign]
  rw [habs] at hk
  exact Decimal.isInt_toDouble n.negative hm hk

theorem Literal.ofDouble_of_isInt {x : Double} {k : Int} (hx : x.IsInt k)
    (hk : k.natAbs < Nat.pow 2 53) : Literal.ofDouble x = .number (.integer k) := by
  rw [ofDouble, Number.ofDouble?_of_isInt hx hk]

theorem Literal.ofDouble_natCast (h : n < Nat.pow 2 53) :
    Literal.ofDouble (.ofInt n) = .number (.integer n) :=
  ofDouble_of_isInt (Double.isInt_ofInt h) h

theorem Numeral.ofText?_digits {ds : List Char} (h : ∀ d ∈ ds, d.isDigit = true) (hne : ds ≠ []) :
    Numeral.ofText? ds = some ⟨false, ⟨digitValue ds, 0⟩⟩ := by
  have hwritten := Written.mk .absent (.whole ⟨hne, h⟩) .absent
  rw [List.nil_append, List.append_nil] at hwritten
  exact ofText?_eq_some.2 hwritten

theorem Numeral.ofText?_toDigits (n : Nat) :
    Numeral.ofText? (Nat.toDigits 10 n) = some ⟨false, ⟨n, 0⟩⟩ := by
  have hdigit : ∀ c ∈ Nat.toDigits 10 n, c.isDigit = true := fun c =>
    Nat.isDigit_of_mem_toDigits (by decide) (by decide)
  rw [ofText?_digits hdigit Nat.toDigits_ne_nil, digitValue, Nat.ofDigitChars_toDigits]
  all_goals decide

end TemplateExpr
