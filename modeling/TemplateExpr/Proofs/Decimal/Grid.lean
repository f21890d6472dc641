import TemplateExpr.Decimal.Shortest
import TemplateExpr.Proofs.Decimal.Value

namespace TemplateExpr.Decimal

variable {x : Double.Finite} {d : Decimal} {u : Nat} {e : ℤ}

theorem readsBack_eq_true : readsBack x d = true ↔ d.units = x.units := by
  rw [readsBack, beq_iff_eq, toDouble_eq_finite]
  exact and_iff_right rfl

def steps (u : Nat) (e : ℤ) : Nat :=
  ⌊(u / Double.one / 10 ^ e : ℚ)⌋₊

theorem ratio_eq (u : Nat) (e : ℤ) :
    (u / Double.one / 10 ^ e : ℚ) =
      (u * 10 ^ (-e).toNat : Nat) / (Double.one * 10 ^ e.toNat : Nat) := by
  have hone := one_pos.ne'
  rw [ten_zpow]
  push_cast
  field_simp

theorem steps_eq (u : Nat) (e : ℤ) :
    steps u e = u * Nat.pow 10 (-e).toNat / (Double.one * Nat.pow 10 e.toNat) := by
  rw [steps, ratio_eq, Nat.floor_div_eq_div, Nat.pow_eq, Nat.pow_eq]

theorem mem_neighbours :
    d ∈ neighbours u e ↔ d = ⟨steps u e, e⟩ ∨ d = ⟨steps u e + 1, e⟩ := by
  simp only [neighbours, ← steps_eq]
  split
  · simp
  · simp [or_comm]

theorem steps_value_le (u : Nat) (e : ℤ) : (⟨steps u e, e⟩ : Decimal).value ≤ u / Double.one := by
  have hpos : (0 : ℚ) < 10 ^ e := by positivity
  rw [value, ← le_div_iff₀ hpos]
  exact Nat.floor_le (by positivity)

theorem lt_steps_succ_value (u : Nat) (e : ℤ) :
    u / Double.one < (⟨steps u e + 1, e⟩ : Decimal).value := by
  have hpos : (0 : ℚ) < 10 ^ e := by positivity
  rw [value, ← div_lt_iff₀ hpos]
  exact_mod_cast Nat.lt_floor_add_one _

theorem value_mono {c c' : Nat} (h : c ≤ c') (e : ℤ) :
    (⟨c, e⟩ : Decimal).value ≤ (⟨c', e⟩ : Decimal).value := by
  have hpos : (0 : ℚ) < 10 ^ e := by positivity
  exact mul_le_mul_of_nonneg_right (Nat.cast_le.2 h) hpos.le

def distance (d : Decimal) (x : Double.Finite) : ℚ :=
  |d.value - x.units / Double.one|

-- Of the points on one side of the double, the neighbour is the nearest, and it reads back where
-- one of them does.
section

variable {c : Nat}

theorem units_lower (hc : c ≤ steps x.units e) (h : (⟨c, e⟩ : Decimal).units = x.units) :
    (⟨steps x.units e, e⟩ : Decimal).units = x.units :=
  Nat.le_antisymm (units_le x.spacing_dvd (steps_value_le _ _))
    (h.ge.trans (units_mono (value_mono hc e)))

theorem units_upper (hc : steps x.units e < c) (h : (⟨c, e⟩ : Decimal).units = x.units) :
    (⟨steps x.units e + 1, e⟩ : Decimal).units = x.units :=
  Nat.le_antisymm ((units_mono (value_mono hc e)).trans h.le)
    (le_units x.spacing_dvd (lt_steps_succ_value _ _).le)

theorem distance_lower_le (hc : c ≤ steps x.units e) :
    distance ⟨steps x.units e, e⟩ x ≤ distance ⟨c, e⟩ x := by
  have hlower := steps_value_le x.units e
  have hle := value_mono hc e
  rw [distance, distance, abs_of_nonpos (sub_nonpos.2 hlower),
    abs_of_nonpos (sub_nonpos.2 (hle.trans hlower))]
  exact neg_le_neg (sub_le_sub_right hle _)

theorem distance_upper_le (hc : steps x.units e < c) :
    distance ⟨steps x.units e + 1, e⟩ x ≤ distance ⟨c, e⟩ x := by
  have hupper := (lt_steps_succ_value x.units e).le
  have hle := value_mono hc e
  rw [distance, distance, abs_of_nonneg (sub_nonneg.2 hupper),
    abs_of_nonneg (sub_nonneg.2 (hupper.trans hle))]
  exact sub_le_sub_right hle _

end

theorem distance_lower_sub_upper (x : Double.Finite) (e : ℤ) :
    distance ⟨steps x.units e, e⟩ x - distance ⟨steps x.units e + 1, e⟩ x =
      2 * (x.units / Double.one) - (2 * steps x.units e + 1) * 10 ^ e := by
  rw [distance, distance, abs_of_nonpos (sub_nonpos.2 (steps_value_le _ _)),
    abs_of_nonneg (sub_nonneg.2 (lt_steps_succ_value _ _).le), value, value]
  push_cast
  ring

theorem exists_neighbours_eq (x : Double.Finite) (e : ℤ) :
    ∃ a b, neighbours x.units e = [a, b] ∧ distance a x ≤ distance b x ∧
      (a = ⟨steps x.units e, e⟩ ∧ b = ⟨steps x.units e + 1, e⟩ ∨
        a = ⟨steps x.units e + 1, e⟩ ∧ b = ⟨steps x.units e, e⟩) := by
  have hsub := distance_lower_sub_upper x e
  have hpos : (0 : ℚ) < 10 ^ e := by positivity
  have hratio := ratio_eq x.units e
  have hsteps := steps_eq x.units e
  simp only [neighbours, ← hsteps]
  simp only [Nat.pow_eq] at hsteps ⊢
  have hd : 0 < Double.one * 10 ^ e.toNat := Nat.mul_pos Double.one_pos (Nat.pow_pos (by decide))
  generalize x.units * 10 ^ (-e).toNat = n at hratio hsteps ⊢
  generalize Double.one * 10 ^ e.toNat = d at hratio hsteps hd ⊢
  have hdiv := Nat.div_add_mod n d
  rw [← hsteps] at hdiv
  rw [div_eq_iff hpos.ne'] at hratio
  have hdpos : (0 : ℚ) < d := Nat.cast_pos.2 hd
  split
  · refine ⟨_, _, rfl, sub_nonpos.1 ?_, .inl ⟨rfl, rfl⟩⟩
    rw [hsub, hratio, ← mul_assoc, ← sub_mul, ← mul_div_assoc]
    refine mul_nonpos_of_nonpos_of_nonneg (sub_nonpos.2 ((div_le_iff₀ hdpos).2 ?_)) hpos.le
    have hle : 2 * n ≤ (2 * steps x.units e + 1) * d := by
      rw [Nat.add_mul, Nat.one_mul, Nat.mul_assoc, Nat.mul_comm (steps x.units e)]
      omega
    exact_mod_cast hle
  · refine ⟨_, _, rfl, sub_nonneg.1 ?_, .inr ⟨rfl, rfl⟩⟩
    rw [hsub, hratio, ← mul_assoc, ← sub_mul, ← mul_div_assoc]
    refine mul_nonneg (sub_nonneg.2 ((le_div_iff₀ hdpos).2 ?_)) hpos.le
    have hle : (2 * steps x.units e + 1) * d ≤ 2 * n := by
      rw [Nat.add_mul, Nat.one_mul, Nat.mul_assoc, Nat.mul_comm (steps x.units e)]
      omega
    exact_mod_cast hle

theorem distance_le_of_find? {a b : Decimal} {q : ℚ}
    (hd : [a, b].find? (readsBack x) = some d) (hab : distance a x ≤ distance b x)
    (hq : a.units = x.units ∧ distance a x ≤ q ∨ b.units = x.units ∧ distance b x ≤ q) :
    distance d x ≤ q := by
  by_cases ha : readsBack x a = true
  · rw [List.find?_cons_of_pos ha, Option.some.injEq] at hd
    rcases hq with hq | hq
    · exact hd ▸ hq.2
    · exact hd ▸ hab.trans hq.2
  · rw [List.find?_cons_of_neg ha, List.find?_singleton, Option.ite_none_right_eq_some,
      Option.some.injEq] at hd
    rcases hq with hq | hq
    · exact absurd (readsBack_eq_true.2 hq.1) ha
    · exact hd.2 ▸ hq.2

theorem neighbour_between {c : Nat} (hc : (⟨c, e⟩ : Decimal).units = x.units) :
    ((⟨steps x.units e, e⟩ : Decimal).units = x.units ∧
      distance ⟨steps x.units e, e⟩ x ≤ distance ⟨c, e⟩ x) ∨
    ((⟨steps x.units e + 1, e⟩ : Decimal).units = x.units ∧
      distance ⟨steps x.units e + 1, e⟩ x ≤ distance ⟨c, e⟩ x) := by
  rcases Nat.lt_or_ge (steps x.units e) c with hlt | hge
  · exact .inr ⟨units_upper hlt hc, distance_upper_le hlt⟩
  · exact .inl ⟨units_lower hge hc, distance_lower_le hge⟩

theorem nearest_of_find? {c : Nat} (hd : (neighbours x.units e).find? (readsBack x) = some d)
    (hc : (⟨c, e⟩ : Decimal).units = x.units) : distance d x ≤ distance ⟨c, e⟩ x := by
  obtain ⟨a, b, heq, hab, ⟨rfl, rfl⟩ | ⟨rfl, rfl⟩⟩ := exists_neighbours_eq x e
  · exact distance_le_of_find? (heq ▸ hd) hab (neighbour_between hc)
  · exact distance_le_of_find? (heq ▸ hd) hab (neighbour_between hc).symm

theorem exists_mem_neighbours {c : Nat} (h : (⟨c, e⟩ : Decimal).units = x.units) :
    ∃ d ∈ neighbours x.units e, d.units = x.units := by
  rcases neighbour_between h with hlower | hupper
  · exact ⟨_, mem_neighbours.2 (.inl rfl), hlower.1⟩
  · exact ⟨_, mem_neighbours.2 (.inr rfl), hupper.1⟩

theorem exponent_of_find? (h : (neighbours u e).find? (readsBack x) = some d) :
    d.exponent = e := by
  rcases mem_neighbours.1 (List.mem_of_find?_eq_some h) with rfl | rfl
  · rfl
  · rfl

theorem units_ne_of_find?_eq_none
    (h : (neighbours x.units e).find? (readsBack x) = none) (c : Nat) :
    (⟨c, e⟩ : Decimal).units ≠ x.units := by
  intro hc
  obtain ⟨d, hd, hunits⟩ := exists_mem_neighbours hc
  exact List.find?_eq_none.1 h d hd (readsBack_eq_true.2 hunits)

theorem exists_headD_neighbours (u : Nat) :
    ∃ c, (neighbours u finest).headD ⟨0, 0⟩ = ⟨c, finest⟩ ∧
      2 * (c * Double.one) ≤ 2 * (u * 10 ^ 324) + Double.one ∧
      2 * (u * 10 ^ 324) ≤ 2 * (c * Double.one) + Double.one := by
  have hfine : (-finest).toNat = 324 := rfl
  have hwhole : finest.toNat = 0 := rfl
  simp only [neighbours, hfine, hwhole, Nat.pow_eq, Nat.pow_zero, Nat.mul_one]
  have hone := Double.one_pos
  generalize u * 10 ^ 324 = n
  generalize Double.one = d at hone ⊢
  have hdiv := Nat.div_add_mod' n d
  have hmod := Nat.mod_lt n hone
  split
  · exact ⟨n / d, rfl, by omega, by omega⟩
  · refine ⟨n / d + 1, rfl, ?_, ?_⟩
    · rw [Nat.add_mul, Nat.one_mul]
      omega
    · rw [Nat.add_mul, Nat.one_mul]
      omega

theorem units_finest (c : Nat) :
    (⟨c, finest⟩ : Decimal).units = Double.roundUnits (c * Double.one) (10 ^ 324) := by
  have hfine : (-finest).toNat = 324 := rfl
  have hwhole : finest.toNat = 0 := rfl
  simp only [units, numerator, denominator, hfine, hwhole, Nat.pow_eq, Nat.pow_zero, Nat.mul_one]

theorem units_headD_neighbours (x : Double.Finite) :
    ((neighbours x.units finest).headD ⟨0, 0⟩).units = x.units := by
  obtain ⟨c, hc, hupper, hlower⟩ := exists_headD_neighbours x.units
  have hone := Double.one_pos
  have hten := two_mul_one_le
  rw [hc, units_finest]
  generalize 10 ^ 324 = d at hupper hlower hten ⊢
  generalize Double.one = n at hupper hlower hone hten ⊢
  apply Double.roundUnits_eq_of_near x.spacing_dvd
  · rw [Nat.add_mul, Nat.one_mul, Nat.mul_assoc]
    omega
  · rw [Nat.mul_assoc]
    omega

end TemplateExpr.Decimal
