import Mathlib.Tactic.Ring
import TemplateExpr.Proofs.Decimal.Grid

namespace TemplateExpr.Decimal

variable {x : Double.Finite} {d : Decimal}

-- Sealed, since to compare the two sides Lean would otherwise evaluate the powers in them.
seal finest neighbours readsBack in
theorem shortestFrom_zero (x : Double.Finite) :
    shortestFrom x 0 = (neighbours x.units finest).headD ⟨0, 0⟩ :=
  rfl

seal finest neighbours readsBack in
theorem shortestFrom_succ (x : Double.Finite) (n : Nat) :
    shortestFrom x (n + 1) =
      match (neighbours x.units (finest + (n + 1))).find? (readsBack x) with
      | some d => d
      | none => shortestFrom x n :=
  rfl

theorem find?_neighbours_finest (x : Double.Finite) :
    (neighbours x.units finest).find? (readsBack x) =
      some ((neighbours x.units finest).headD ⟨0, 0⟩) := by
  have hunits := units_headD_neighbours x
  obtain ⟨a, b, heq, -⟩ := exists_neighbours_eq x finest
  rw [heq] at hunits ⊢
  exact List.find?_cons_of_pos (readsBack_eq_true.2 hunits)

-- What the search gives stands on some grid, and no grid above it up to the first one has a point
-- that reads back.
theorem shortestFrom_spec (x : Double.Finite) (n : Nat) :
    ∃ k : Nat, (neighbours x.units (finest + k)).find? (readsBack x) = some (shortestFrom x n) ∧
      ∀ i, k < i → i ≤ n → ∀ c, (⟨c, finest + i⟩ : Decimal).units ≠ x.units := by
  induction n with
  | zero =>
      refine ⟨0, ?_, fun i hlt hle => absurd hlt (Nat.not_lt.2 hle)⟩
      rw [Nat.cast_zero, add_zero, shortestFrom_zero]
      exact find?_neighbours_finest x
  | succ n ih =>
      rw [shortestFrom_succ]
      cases hfind : (neighbours x.units (finest + (n + 1))).find? (readsBack x) with
      | some d =>
          refine ⟨n + 1, ?_, fun i hlt hle => absurd hlt (Nat.not_lt.2 hle)⟩
          rw [Nat.cast_succ]
          exact hfind
      | none =>
          obtain ⟨k, hfound, hcoarser⟩ := ih
          refine ⟨k, hfound, fun i hlt hle c => ?_⟩
          rcases Nat.lt_or_eq_of_le hle with hlt' | rfl
          · exact hcoarser i hlt (Nat.le_of_lt_succ hlt') c
          · rw [Nat.cast_succ]
            exact units_ne_of_find?_eq_none hfind c

-- Ten binary digits are three decimal ones but for a factor that stays small over the range of
-- the doubles.
theorem binary_le_decimal {q : Nat} (h : q ≤ 209) : 1024 ^ q ≤ 150 * 1000 ^ q := by
  refine Nat.le_of_mul_le_mul_right (?_ : 1024 ^ q * 1000 ^ (209 - q) ≤ _) (Nat.pow_pos (by decide))
  calc 1024 ^ q * 1000 ^ (209 - q)
    _ ≤ 1024 ^ q * 1024 ^ (209 - q) := Nat.mul_le_mul_left _ (Nat.pow_le_pow_left (by decide) _)
    _ = 1024 ^ 209 := by rw [← Nat.pow_add, Nat.add_sub_cancel' h]
    _ ≤ 150 * 1000 ^ 209 := by decide +kernel
    _ = 150 * 1000 ^ q * 1000 ^ (209 - q) := by
        rw [Nat.mul_assoc, ← Nat.pow_add, Nat.add_sub_cancel' h]

theorem remainder_le_decimal :
    ∀ r < 10, 2 ^ (r + 1) * (150 * 10 ^ 324) ≤ Double.one * 10 ^ (3 * r / 10 + 5) := by
  decide +kernel

theorem two_pow_le_decimal {l : Nat} (h : l ≤ 2098) :
    2 ^ (l + 1) * 10 ^ 324 ≤ Double.one * 10 ^ (3 * l / 10 + 5) := by
  have hq : l / 10 ≤ 209 := by omega
  have hl : l + 1 = 10 * (l / 10) + (l % 10 + 1) := by omega
  have he : 3 * l / 10 + 5 = 3 * (l / 10) + (3 * (l % 10) / 10 + 5) := by omega
  have hr := remainder_le_decimal (l % 10) (Nat.mod_lt l (by decide))
  generalize Double.one = n at hr ⊢
  generalize 10 ^ 324 = d at hr ⊢
  rw [hl, he, Nat.pow_add 2, Nat.pow_mul, Nat.pow_add 10, Nat.pow_mul]
  calc (2 ^ 10) ^ (l / 10) * 2 ^ (l % 10 + 1) * d
    _ ≤ 150 * 1000 ^ (l / 10) * 2 ^ (l % 10 + 1) * d :=
        Nat.mul_le_mul_right _ (Nat.mul_le_mul_right _ (binary_le_decimal hq))
    _ = 1000 ^ (l / 10) * (2 ^ (l % 10 + 1) * (150 * d)) := by ring
    _ ≤ 1000 ^ (l / 10) * (n * 10 ^ (3 * (l % 10) / 10 + 5)) := Nat.mul_le_mul_left _ hr
    _ = n * ((10 ^ 3) ^ (l / 10) * 10 ^ (3 * (l % 10) / 10 + 5)) := by ring

theorem two_mul_units_le (x : Double.Finite) :
    2 * x.units * 10 ^ 324 ≤ Double.one * 10 ^ start x := by
  have hlog : x.units.log2 + 1 ≤ 2098 := by
    by_cases hzero : x.units = 0
    · rw [hzero]
      decide
    · exact (Nat.log2_lt hzero).2 x.lt_bound
  refine Nat.le_trans (Nat.mul_le_mul_right _ ?_) (two_pow_le_decimal hlog)
  rw [Nat.pow_succ' (n := x.units.log2 + 1)]
  exact Nat.mul_le_mul_left 2 Nat.lt_log2_self.le

theorem units_of_coefficient_eq_zero (h : d.coefficient = 0) : d.units = 0 := by
  refine Nat.le_zero.1 (units_le (Nat.dvd_zero _) ?_)
  rw [value, h, Nat.cast_zero, zero_mul, zero_div]

theorem two_mul_magnitude_le (x : Double.Finite) :
    (2 * x.units : Nat) / Double.one ≤ (10 : ℚ) ^ (finest + start x) := by
  have hfinest : (10 : ℚ) ^ finest = (10 ^ 324)⁻¹ := zpow_neg _ 324
  have hle := two_mul_units_le x
  have hone := one_pos
  generalize Double.one = n at hle hone ⊢
  rw [zpow_add₀ (by norm_num), hfinest, zpow_natCast, ← div_eq_inv_mul,
    div_le_div_iff₀ hone (by positivity), mul_comm _ (n : ℚ)]
  exact_mod_cast hle

theorem units_ne_of_start_lt (hx : x.units ≠ 0) (h : finest + start x < d.exponent) :
    d.units ≠ x.units := by
  by_cases hzero : d.coefficient = 0
  · rw [units_of_coefficient_eq_zero hzero]
    exact hx.symm
  · have hlarge : (2 * x.units : Nat) / Double.one ≤ d.value := by
      calc ((2 * x.units : Nat) : ℚ) / Double.one
        _ ≤ 10 ^ (finest + start x) := two_mul_magnitude_le x
        _ ≤ 10 ^ d.exponent := zpow_le_zpow_right₀ (by norm_num) h.le
        _ ≤ d.value := le_mul_of_one_le_left (by positivity)
            (Nat.one_le_cast.2 (Nat.one_le_iff_ne_zero.2 hzero))
    have hle := le_units (Double.spacing_two_mul x.spacing_dvd) hlarge
    omega

theorem units_shortest (x : Double.Finite) : (shortest x).units = x.units := by
  rw [shortest]
  split
  · rename_i hzero
    rw [hzero]
    exact units_of_coefficient_eq_zero rfl
  · obtain ⟨k, hfound, -⟩ := shortestFrom_spec x (start x)
    exact readsBack_eq_true.1 (List.find?_some hfound)

theorem exponent_le_shortest (hx : x.units ≠ 0) (h : d.units = x.units) :
    d.exponent ≤ (shortest x).exponent := by
  obtain ⟨k, hfound, hcoarser⟩ := shortestFrom_spec x (start x)
  rw [shortest, if_neg hx, exponent_of_find? hfound]
  by_contra! hlt
  obtain ⟨i, hi⟩ := Int.eq_ofNat_of_zero_le (show 0 ≤ d.exponent - finest by omega)
  have hd : d = ⟨d.coefficient, finest + i⟩ := by
    rw [← hi, add_sub_cancel]
  rcases Nat.lt_or_ge (start x) i with hstart | hstart
  · exact units_ne_of_start_lt hx (by omega) h
  · rw [hd] at h
    exact hcoarser i (by omega) hstart _ h

theorem distance_shortest_le (hx : x.units ≠ 0) {c : Nat}
    (h : (⟨c, (shortest x).exponent⟩ : Decimal).units = x.units) :
    distance (shortest x) x ≤ distance ⟨c, (shortest x).exponent⟩ x := by
  obtain ⟨k, hfound, -⟩ := shortestFrom_spec x (start x)
  rw [shortest, if_neg hx] at h ⊢
  rw [exponent_of_find? hfound] at h ⊢
  exact nearest_of_find? hfound h

theorem coefficient_shortest_ne_zero (hx : x.units ≠ 0) : (shortest x).coefficient ≠ 0 := by
  intro hzero
  have hunits := units_shortest x
  rw [units_of_coefficient_eq_zero hzero] at hunits
  exact hx hunits.symm

theorem not_ten_dvd_shortest (hx : x.units ≠ 0) : ¬ 10 ∣ (shortest x).coefficient := by
  rintro ⟨c, hc⟩
  have hvalue : (⟨c, (shortest x).exponent + 1⟩ : Decimal).value = (shortest x).value := by
    rw [value, value, hc, zpow_add_one₀ (by norm_num)]
    push_cast
    ring
  have hle := exponent_le_shortest hx ((units_congr hvalue).trans (units_shortest x))
  exact absurd hle (by simp)

-- A power of ten would stand between a decimal with fewer digits and the shortest one.
theorem length_digits_shortest_le (hx : x.units ≠ 0) (h : d.units = x.units) :
    (shortest x).digits.length ≤ d.digits.length := by
  by_contra! hlt
  have hunits := units_shortest x
  have hcoarsest {d : Decimal} := exponent_le_shortest (d := d) hx
  have hpos := d.length_digits_pos
  have hfew : d.coefficient < 10 ^ d.digits.length := (length_digits_le hpos).1 (Nat.le_refl _)
  have hmany : 10 ^ d.digits.length ≤ (shortest x).coefficient :=
    Nat.not_lt.1 fun hlt' => Nat.not_le.2 hlt ((length_digits_le hpos).2 hlt')
  generalize shortest x = s at hunits hcoarsest hmany
  let power : Decimal := ⟨1, s.exponent + d.digits.length⟩
  have hpower : power.value = 10 ^ d.digits.length * 10 ^ s.exponent := by
    rw [value, zpow_add₀ (by norm_num), zpow_natCast, Nat.cast_one, one_mul, mul_comm]
  have hbelow : d.value ≤ power.value := by
    rw [hpower, value]
    refine mul_le_mul (by exact_mod_cast hfew.le) ?_ (by positivity) (by positivity)
    exact zpow_le_zpow_right₀ (by norm_num) (hcoarsest h)
  have habove : power.value ≤ s.value := by
    rw [hpower, value]
    exact mul_le_mul_of_nonneg_right (by exact_mod_cast hmany) (by positivity)
  have hbetween : power.units = x.units :=
    Nat.le_antisymm ((units_mono habove).trans hunits.le) (h.ge.trans (units_mono hbelow))
  have hle : s.exponent + d.digits.length ≤ s.exponent := hcoarsest hbetween
  omega

end TemplateExpr.Decimal
