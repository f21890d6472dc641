import TemplateExpr.Proofs.Decimal.Value
import TemplateExpr.Proofs.Decimal.Written
import TemplateExpr.Value.Text

namespace TemplateExpr

namespace Numeral

def IsWhole (ds : List Char) : Prop :=
  IsDigits ds ∧ (ds.head? = some '0' → ds = ['0'])

def IsFraction (fs : List Char) : Prop :=
  IsDigits fs ∧ fs.getLast? ≠ some '0'

structure IsReduced (ds : List Char) : Prop where
  isDigits : IsDigits ds
  first : ds.head? ≠ some '0'
  last : ds.getLast? ≠ some '0'

inductive IsPlain : Decimal → List Char → Prop
  | whole {ds} : IsWhole ds → IsPlain ⟨digitValue ds, 0⟩ ds
  | pointed {ds fs} : IsWhole ds → IsFraction fs →
      IsPlain ⟨digitValue (ds ++ fs), -fs.length⟩ (ds ++ '.' :: fs)

def power (e : ℤ) : List Char :=
  'e' :: (if 0 ≤ e then '+' else '-') :: Nat.toDigits 10 e.natAbs

-- How a positive number is written whose first digit counts the powers `10 ^ e`.
inductive Canonical (v : ℚ) (e : ℤ) : List Char → Prop
  | positional {d m} : -6 ≤ e → e ≤ 20 → IsPlain d m → d.value = v → Canonical v e m
  | scientific {d m} : e < -6 ∨ 20 < e → IsPlain d m → d.value * 10 ^ e = v →
      Canonical v e (m ++ power e)

section

variable {n : ℕ} {as bs ds : List Char}

theorem isDigits_toDigits (n : ℕ) : IsDigits (Nat.toDigits 10 n) :=
  ⟨Nat.toDigits_ne_nil, fun _ => Nat.isDigit_of_mem_toDigits (by decide) (by decide)⟩

theorem digitValue_toDigits (n : ℕ) : digitValue (Nat.toDigits 10 n) = n :=
  Nat.ofDigitChars_toDigits (by decide) (by decide)

theorem digitValue_zeros_append (zeros : ℕ) (ds : List Char) :
    digitValue (List.replicate zeros '0' ++ ds) = digitValue ds := by
  rw [digitValue, Nat.ofDigitChars_append, Nat.ofDigitChars_replicate_zero, Nat.mul_zero,
    digitValue]

theorem digitValue_append_zeros (zeros : ℕ) (ds : List Char) :
    digitValue (ds ++ List.replicate zeros '0') = 10 ^ zeros * digitValue ds := by
  rw [digitValue, Nat.ofDigitChars_append, Nat.ofDigitChars_replicate_zero, digitValue]

theorem toDigits_ten_le (h : 10 ≤ n) :
    Nat.toDigits 10 n = Nat.toDigits 10 (n / 10) ++ [(n % 10).digitChar] :=
  Nat.toDigits_of_base_le (by decide) h

theorem head?_toDigits (hn : n ≠ 0) : (Nat.toDigits 10 n).head? ≠ some '0' := by
  induction n using Nat.strongRecOn with
  | ind n ih =>
      rcases Nat.lt_or_ge n 10 with hlt | hge
      · rw [Nat.toDigits_of_lt_base hlt, List.head?_cons]
        simpa using hn
      · rw [toDigits_ten_le hge, List.head?_append_of_ne_nil _ Nat.toDigits_ne_nil]
        exact ih (n / 10) (by omega) (by omega)

theorem getLast?_toDigits (n : ℕ) :
    (Nat.toDigits 10 n).getLast? = some (n % 10).digitChar := by
  rcases Nat.lt_or_ge n 10 with hlt | hge
  · rw [Nat.toDigits_of_lt_base hlt, Nat.mod_eq_of_lt hlt, List.getLast?_singleton]
  · rw [toDigits_ten_le hge, List.getLast?_append_of_ne_nil _ (List.cons_ne_nil _ _),
      List.getLast?_singleton]

theorem isWhole_toDigits (n : ℕ) : IsWhole (Nat.toDigits 10 n) := by
  refine ⟨isDigits_toDigits n, fun h => ?_⟩
  by_cases hn : n = 0
  · rw [hn]
    rfl
  · exact absurd h (head?_toDigits hn)

theorem isReduced_toDigits (hn : ¬ 10 ∣ n) : IsReduced (Nat.toDigits 10 n) where
  isDigits := isDigits_toDigits n
  first := head?_toDigits fun hzero => hn (hzero ▸ Nat.dvd_zero 10)
  last := by
    rw [getLast?_toDigits]
    simpa [Nat.dvd_iff_mod_eq_zero] using hn

theorem IsDigits.zeros_append (hds : IsDigits ds) (zeros : ℕ) :
    IsDigits (List.replicate zeros '0' ++ ds) := by
  refine ⟨List.append_ne_nil_of_right_ne_nil _ hds.1, fun c hc => ?_⟩
  rcases List.mem_append.1 hc with hc | hc
  · rw [List.eq_of_mem_replicate hc]
    rfl
  · exact hds.2 c hc

theorem IsDigits.append_zeros (hds : IsDigits ds) (zeros : ℕ) :
    IsDigits (ds ++ List.replicate zeros '0') := by
  refine ⟨List.append_ne_nil_of_left_ne_nil hds.1 _, fun c hc => ?_⟩
  rcases List.mem_append.1 hc with hc | hc
  · exact hds.2 c hc
  · rw [List.eq_of_mem_replicate hc]
    rfl

theorem IsReduced.isWhole_append_zeros (hds : IsReduced ds) (zeros : ℕ) :
    IsWhole (ds ++ List.replicate zeros '0') := by
  refine ⟨hds.isDigits.append_zeros zeros, fun h => ?_⟩
  rw [List.head?_append_of_ne_nil _ hds.isDigits.1] at h
  exact absurd h hds.first

theorem IsReduced.isFraction_zeros_append (hds : IsReduced ds) (zeros : ℕ) :
    IsFraction (List.replicate zeros '0' ++ ds) := by
  refine ⟨hds.isDigits.zeros_append zeros, ?_⟩
  rw [List.getLast?_append_of_ne_nil _ hds.isDigits.1]
  exact hds.last

theorem IsReduced.isWhole_left (h : IsReduced (as ++ bs)) (has : as ≠ []) : IsWhole as := by
  have hfirst := h.first
  rw [List.head?_append_of_ne_nil _ has] at hfirst
  exact ⟨⟨has, fun c hc => h.isDigits.2 c (List.mem_append_left bs hc)⟩,
    fun hzero => absurd hzero hfirst⟩

theorem IsReduced.isFraction_right (h : IsReduced (as ++ bs)) (hbs : bs ≠ []) : IsFraction bs := by
  have hlast := h.last
  rw [List.getLast?_append_of_ne_nil _ hbs] at hlast
  exact ⟨⟨hbs, fun c hc => h.isDigits.2 c (List.mem_append_right as hc)⟩, hlast⟩

end

end Numeral

namespace Decimal

open Numeral

-- Digits laid out around a point that stands `point` places behind the first of them.
inductive Laid (ds : List Char) : ℤ → List Char → Prop
  | whole {zeros : ℕ} : ds.length + zeros ≤ 21 →
      Laid ds (ds.length + zeros) (ds ++ List.replicate zeros '0')
  | split {as bs} : ds = as ++ bs → as ≠ [] → bs ≠ [] → as.length ≤ 21 →
      Laid ds as.length (as ++ '.' :: bs)
  | small {zeros : ℕ} : zeros < 6 →
      Laid ds (-zeros) ('0' :: '.' :: (List.replicate zeros '0' ++ ds))
  | scientific {c fs point} : ds = c :: fs → point ≤ -6 ∨ 21 < point →
      Laid ds point (c :: ((if fs = [] then [] else '.' :: fs) ++ power (point - 1)))

section

variable {point : ℤ} {d : Decimal} {ds m : List Char}

theorem laid_text (d : Decimal) : Laid d.digits d.point d.text := by
  have hpos := d.length_digits_pos
  rw [text]
  split
  · rename_i hpoint
    rw [positional]
    generalize hp : d.point = p at hpoint
    have hexponent : p = d.digits.length + d.exponent := hp.symm
    generalize d.digits = ds at hpos hexponent
    split
    · obtain ⟨zeros, hzeros⟩ := Int.eq_ofNat_of_zero_le (show 0 ≤ -p by omega)
      obtain rfl : p = -zeros := by omega
      rw [hzeros, Int.toNat_natCast]
      exact .small (by omega)
    · obtain ⟨k, rfl⟩ := Int.eq_ofNat_of_zero_le (show 0 ≤ p by omega)
      rw [Int.toNat_natCast]
      split
      · have hlength : (ds.take k).length = k := List.length_take_of_le (by omega)
        have hsplit : Laid ds (ds.take k).length (ds.take k ++ '.' :: ds.drop k) := by
          refine .split (List.take_append_drop k ds).symm ?_ ?_ (by omega)
          · exact List.ne_nil_of_length_pos (by omega)
          · exact List.ne_nil_of_length_pos (by rw [List.length_drop]; omega)
        rwa [hlength] at hsplit
      · obtain ⟨zeros, hzeros⟩ := Int.eq_ofNat_of_zero_le (show 0 ≤ d.exponent by omega)
        rw [hexponent, hzeros, Int.toNat_natCast]
        exact .whole (by omega)
  · rename_i hpoint
    rw [scientific]
    obtain ⟨c, fs, hds⟩ := List.exists_cons_of_length_pos d.length_digits_pos
    have hlaid : Laid d.digits d.point _ := .scientific hds (by omega)
    rw [hds] at hlaid ⊢
    simpa [power, List.isEmpty_iff] using hlaid

theorem Laid.canonical (h : Laid ds point m) (hds : IsReduced ds) :
    Canonical (⟨digitValue ds, point - ds.length⟩ : Decimal).value (point - 1) m := by
  have hpos : 0 < ds.length := List.length_pos_iff.2 hds.isDigits.1
  cases h with
  | @whole zeros hlength =>
      refine .positional (by omega) (by omega) (.whole (hds.isWhole_append_zeros zeros)) ?_
      rw [value, value, digitValue_append_zeros, add_sub_cancel_left, zpow_natCast, zpow_zero,
        mul_one, Nat.cast_mul, mul_comm, Nat.cast_pow, Nat.cast_ofNat]
  | @split as bs hsplit has hbs hlength =>
      subst hsplit
      have haspos : 0 < as.length := List.length_pos_iff.2 has
      have hexponent : (as.length - (as ++ bs).length : ℤ) = -bs.length := by
        rw [List.length_append]
        omega
      rw [hexponent]
      exact .positional (by omega) (by omega)
        (.pointed (hds.isWhole_left has) (hds.isFraction_right hbs)) rfl
  | @small zeros hzeros =>
      have hvalue : digitValue ds = digitValue (['0'] ++ (List.replicate zeros '0' ++ ds)) :=
        (digitValue_zeros_append (zeros + 1) ds).symm
      have hexponent : (-zeros - ds.length : ℤ) = -(List.replicate zeros '0' ++ ds).length := by
        rw [List.length_append, List.length_replicate]
        omega
      rw [hvalue, hexponent]
      exact .positional (by omega) (by omega)
        (.pointed (isWhole_toDigits 0) (hds.isFraction_zeros_append zeros)) rfl
  | @scientific c fs _ hcons hpoint =>
      subst hcons
      have happend : IsReduced ([c] ++ fs) := hds
      have hwhole := happend.isWhole_left (List.cons_ne_nil c [])
      have hvalue {e : ℤ} (he : e + (point - 1) = point - (c :: fs).length) :
          (⟨digitValue (c :: fs), e⟩ : Decimal).value * 10 ^ (point - 1) =
            (⟨digitValue (c :: fs), point - (c :: fs).length⟩ : Decimal).value := by
        rw [value, value, mul_assoc, ← zpow_add₀ (by norm_num), he]
      rw [← List.cons_append]
      by_cases hfs : fs = []
      · subst hfs
        exact .scientific (by omega) (.whole hwhole) (hvalue (by simp))
      · rw [if_neg hfs]
        refine .scientific (by omega) (.pointed hwhole (happend.isFraction_right hfs)) ?_
        refine hvalue ?_
        rw [List.length_cons]
        omega

theorem canonical_text (h : ¬ 10 ∣ d.coefficient) :
    Canonical d.value (d.point - 1) d.text := by
  have hreduced : IsReduced d.digits := isReduced_toDigits h
  have hexponent : d.point - d.digits.length = d.exponent := by
    rw [point]
    omega
  have hcoefficient : digitValue d.digits = d.coefficient := digitValue_toDigits _
  have hcanonical := d.laid_text.canonical hreduced
  rwa [hexponent, hcoefficient] at hcanonical

theorem value_bounds (h : d.coefficient ≠ 0) :
    (10 : ℚ) ^ (d.point - 1) ≤ d.value ∧ d.value < 10 ^ d.point := by
  obtain ⟨k, hk⟩ := Nat.exists_eq_succ_of_ne_zero d.length_digits_pos.ne'
  have hpos : (0 : ℚ) < 10 ^ d.exponent := by positivity
  have hupper : d.coefficient < 10 ^ (k + 1) :=
    (length_digits_le k.succ_pos).1 (Nat.le_of_eq hk)
  have hlower : 10 ^ k ≤ d.coefficient := by
    rcases Nat.eq_zero_or_pos k with rfl | hpos
    · exact Nat.pos_of_ne_zero h
    · refine Nat.not_lt.1 fun hlt => ?_
      have hle := (length_digits_le hpos).2 hlt
      omega
  have hfirst : d.point - 1 = k + d.exponent := by
    rw [point, hk]
    omega
  have hpoint : d.point = (k + 1 : ℕ) + d.exponent := by
    rw [point, hk]
  rw [hfirst, hpoint, value, zpow_add₀ (by norm_num), zpow_add₀ (by norm_num), zpow_natCast,
    zpow_natCast]
  exact ⟨mul_le_mul_of_nonneg_right (by exact_mod_cast hlower) hpos.le,
    mul_lt_mul_of_pos_right (by exact_mod_cast hupper) hpos⟩

end

end Decimal

namespace Numeral

variable {negative : Bool} {v : ℚ} {e : ℤ} {d : Decimal} {s m : List Char}

theorem IsPlain.isSignificand (h : IsPlain d m) : IsSignificand d m := by
  cases h with
  | whole hds => exact .whole hds.1
  | pointed hds hfs => exact .pointed hds.1 (.inr hfs.1)

theorem isExponent_power (e : ℤ) : IsExponent e (power e) := by
  have hdigits := isDigits_toDigits e.natAbs
  have hvalue := digitValue_toDigits e.natAbs
  rw [power]
  by_cases he : 0 ≤ e
  · rw [if_pos he]
    have hpower := IsExponent.present (.inl rfl : 'e' = 'e' ∨ 'e' = 'E') .plus hdigits
    rwa [hvalue, if_neg Bool.false_ne_true, Int.natAbs_of_nonneg he] at hpower
  · rw [if_neg he]
    have hpower := IsExponent.present (.inl rfl : 'e' = 'e' ∨ 'e' = 'E') .minus hdigits
    rwa [hvalue, if_pos rfl, show -(e.natAbs : ℤ) = e by omega] at hpower

theorem Canonical.written (h : Canonical v e m) (hs : IsSign negative s) :
    ∃ n, Written n (s ++ m) ∧ n.negative = negative ∧ n.magnitude.value = v := by
  cases h with
  | @positional d m _ _ hplain hvalue =>
      have hwritten := Written.mk hs hplain.isSignificand .absent
      rw [add_zero, List.append_nil] at hwritten
      exact ⟨_, hwritten, rfl, hvalue⟩
  | @scientific d m _ hplain hvalue =>
      refine ⟨_, .mk hs hplain.isSignificand (isExponent_power e), rfl, ?_⟩
      rw [← hvalue, Decimal.value, Decimal.value, zpow_add₀ (by norm_num), mul_assoc]

end Numeral

end TemplateExpr
