namespace TemplateExpr.Double

/-- The integer nearest to `n / d`; a half goes to the even neighbour. -/
def roundDiv (n d : Nat) : Nat :=
  if 2 * (n % d) < d then n / d
  else if d < 2 * (n % d) then n / d + 1
  else n / d + n / d % 2

theorem le_roundDiv (n d : Nat) : n / d ≤ roundDiv n d := by
  unfold roundDiv; split <;> (try split) <;> omega

theorem roundDiv_le (n d : Nat) : roundDiv n d ≤ n / d + 1 := by
  unfold roundDiv; split <;> (try split) <;> omega

theorem roundDiv_mul_self (n : Nat) {d : Nat} (h : 0 < d) : roundDiv (n * d) d = n := by
  simp [roundDiv, h, Nat.mul_div_cancel n h]

def spacing (u : Nat) : Nat :=
  Nat.pow 2 (u.log2 - 52)

theorem spacing_pos (u : Nat) : 0 < spacing u :=
  Nat.two_pow_pos _

theorem spacing_of_lt {u : Nat} (h : u < Nat.pow 2 53) : spacing u = 1 := by
  by_cases hu : u = 0
  · subst hu; rfl
  · have := (Nat.log2_lt hu).2 h
    simp [spacing, show u.log2 - 52 = 0 by omega]

theorem spacing_dvd_mul_two_pow {m : Nat} (s : Nat) (h : m ≤ Nat.pow 2 53) :
    spacing (m * Nat.pow 2 s) ∣ m * Nat.pow 2 s := by
  simp only [Nat.pow_eq] at h ⊢
  by_cases hm : m = 0
  · simp [hm]
  have hp : 0 < 2 ^ s := Nat.two_pow_pos s
  rcases Nat.lt_or_eq_of_le h with h | rfl
  · refine Nat.dvd_trans (Nat.pow_dvd_pow 2 ?_) (Nat.dvd_mul_left _ _)
    have : m * 2 ^ s < 2 ^ (53 + s) := by
      rw [Nat.pow_add]; exact Nat.mul_lt_mul_of_pos_right h hp
    have := (Nat.log2_lt (Nat.mul_ne_zero hm (Nat.ne_of_gt hp))).2 this
    omega
  · rw [← Nat.pow_add, spacing, Nat.log2_two_pow]
    exact Nat.pow_dvd_pow 2 (by omega)

def roundUnits (n d : Nat) : Nat :=
  roundDiv n (d * spacing (n / d)) * spacing (n / d)

theorem spacing_dvd_roundUnits (n d : Nat) : spacing (roundUnits n d) ∣ roundUnits n d := by
  refine spacing_dvd_mul_two_pow _ (Nat.le_trans (roundDiv_le _ _) ?_)
  rw [← Nat.div_div_eq_div_mul]
  suffices n / d / spacing (n / d) < Nat.pow 2 53 by omega
  rw [Nat.div_lt_iff_lt_mul (spacing_pos _), spacing, Nat.pow_eq, Nat.pow_eq, ← Nat.pow_add]
  exact Nat.lt_of_lt_of_le Nat.lt_log2_self (Nat.pow_le_pow_right (by omega) (by omega))

theorem roundUnits_mul_self {u d : Nat} (hd : 0 < d) (h : spacing u ∣ u) :
    roundUnits (u * d) d = u := by
  obtain ⟨k, hk⟩ := h
  rw [roundUnits, Nat.mul_div_cancel u hd]
  have hs := Nat.mul_pos hd (spacing_pos u)
  have : u * d = k * (d * spacing u) := by
    conv => lhs; rw [hk]
    rw [Nat.mul_comm (spacing u), Nat.mul_assoc, Nat.mul_comm d]
  rw [this, roundDiv_mul_self k hs, Nat.mul_comm]
  exact hk.symm

end TemplateExpr.Double
