import Mathlib.Tactic.Ring
import TemplateExpr.Double.Basic

namespace TemplateExpr.Double

variable {n n' d d' c k u : Nat}

theorem roundDiv_mul_mul (n d : Nat) (hc : 0 < c) : roundDiv (n * c) (d * c) = roundDiv n d := by
  have htwo : 2 * (n % d * c) = 2 * (n % d) * c := (Nat.mul_assoc _ _ _).symm
  simp only [roundDiv, Nat.mul_div_mul_right _ _ hc, Nat.mul_mod_mul_right, htwo,
    Nat.mul_lt_mul_right hc]

theorem roundUnits_mul_mul (n d : Nat) (hc : 0 < c) :
    roundUnits (n * c) (d * c) = roundUnits n d := by
  rw [roundUnits, roundUnits, Nat.mul_div_mul_right _ _ hc, Nat.mul_right_comm,
    roundDiv_mul_mul _ _ hc]

theorem roundDiv_mono (d : Nat) (h : n ≤ n') : roundDiv n d ≤ roundDiv n' d := by
  have hdiv : n / d ≤ n' / d := Nat.div_le_div_right h
  rcases Nat.lt_or_eq_of_le hdiv with hlt | heq
  · exact Nat.le_trans (roundDiv_le n d) (Nat.le_trans hlt (le_roundDiv n' d))
  · have hmod : n % d ≤ n' % d := by
      have hn := Nat.div_add_mod n d
      have hn' := Nat.div_add_mod n' d
      rw [heq] at hn
      omega
    simp only [roundDiv, heq]
    split <;> split <;> (try split) <;> (try split) <;> omega

theorem spacing_dvd_spacing (h : k ≤ u) : spacing k ∣ spacing u := by
  refine Nat.pow_dvd_pow 2 (Nat.sub_le_sub_right ?_ 52)
  by_cases hk : k = 0
  · simp [hk]
  · exact (Nat.le_log2 (by omega)).2 (Nat.le_trans (Nat.log2_self_le hk) h)

theorem spacing_two_mul (h : spacing u ∣ u) : spacing (2 * u) ∣ 2 * u := by
  by_cases hu : u = 0
  · simp [hu]
  · have hstep : 2 * spacing u = Nat.pow 2 (u.log2 - 52 + 1) := (Nat.pow_succ').symm
    refine Nat.dvd_trans ?_ (Nat.mul_dvd_mul_left 2 h)
    rw [hstep, spacing, Nat.log2_two_mul hu]
    exact Nat.pow_dvd_pow 2 (by omega)

theorem roundUnits_le (n d : Nat) : roundUnits n d ≤ Nat.pow 2 53 * spacing (n / d) := by
  refine Nat.mul_le_mul_right _ (Nat.le_trans (roundDiv_le _ _) ?_)
  rw [← Nat.div_div_eq_div_mul]
  suffices n / d / spacing (n / d) < Nat.pow 2 53 by omega
  rw [Nat.div_lt_iff_lt_mul (spacing_pos _), spacing, Nat.pow_eq, Nat.pow_eq, ← Nat.pow_add]
  exact Nat.lt_of_lt_of_le Nat.lt_log2_self (Nat.pow_le_pow_right (by omega) (by omega))

theorem two_pow_le_roundUnits (hk : 52 ≤ k) (h : Nat.pow 2 k ≤ n / d) :
    Nat.pow 2 k ≤ roundUnits n d := by
  have hne : n / d ≠ 0 := Nat.ne_of_gt (Nat.lt_of_lt_of_le (Nat.two_pow_pos k) h)
  have hlog : k ≤ (n / d).log2 := (Nat.le_log2 hne).2 h
  have hpow : Nat.pow 2 (n / d).log2 = Nat.pow 2 52 * spacing (n / d) := by
    rw [spacing, Nat.pow_eq, Nat.pow_eq, Nat.pow_eq, ← Nat.pow_add,
      Nat.add_sub_cancel' (Nat.le_trans hk hlog)]
  refine Nat.le_trans (Nat.pow_le_pow_right (by decide) hlog) ?_
  rw [roundUnits, ← Nat.pow_eq, hpow]
  refine Nat.mul_le_mul_right _ (Nat.le_trans ?_ (le_roundDiv _ _))
  rw [← Nat.div_div_eq_div_mul, Nat.le_div_iff_mul_le (spacing_pos _), ← hpow]
  exact Nat.log2_self_le hne

theorem roundUnits_mono_left (d : Nat) (h : n ≤ n') : roundUnits n d ≤ roundUnits n' d := by
  have hdiv : n / d ≤ n' / d := Nat.div_le_div_right h
  by_cases hspacing : spacing (n / d) = spacing (n' / d)
  · rw [roundUnits, roundUnits, hspacing]
    exact Nat.mul_le_mul_right _ (roundDiv_mono _ h)
  · -- A power of two stands between the quotients, and neither is rounded beyond it.
    have hle := (Nat.pow_dvd_pow_iff_le_right (by decide)).1 (spacing_dvd_spacing hdiv)
    have hne : (n / d).log2 - 52 ≠ (n' / d).log2 - 52 := fun heq => hspacing (by
      rw [spacing, spacing, heq])
    have hlog : 53 + ((n / d).log2 - 52) ≤ (n' / d).log2 := by omega
    have hpow : Nat.pow 2 (n' / d).log2 ≤ n' / d :=
      Nat.log2_self_le fun hzero => by simp [hzero] at hlog
    calc roundUnits n d
      _ ≤ Nat.pow 2 53 * spacing (n / d) := roundUnits_le n d
      _ = Nat.pow 2 (53 + ((n / d).log2 - 52)) := (Nat.pow_add 2 53 _).symm
      _ ≤ Nat.pow 2 (n' / d).log2 := Nat.pow_le_pow_right (by decide) hlog
      _ ≤ roundUnits n' d := two_pow_le_roundUnits (by omega) hpow

theorem roundUnits_mono (hd : 0 < d) (hd' : 0 < d') (h : n * d' ≤ n' * d) :
    roundUnits n d ≤ roundUnits n' d' := by
  rw [← roundUnits_mul_mul n d hd', ← roundUnits_mul_mul n' d' hd, Nat.mul_comm d' d]
  exact roundUnits_mono_left _ h

theorem roundDiv_eq_of_near (h : 2 * n < (2 * k + 1) * d) (h' : 2 * k * d < 2 * n + d) :
    roundDiv n d = k := by
  have hd : 0 < d := Nat.pos_of_ne_zero fun hzero => by simp [hzero] at h
  rw [Nat.add_mul, Nat.one_mul, Nat.mul_assoc, Nat.mul_comm k] at h
  rw [Nat.mul_assoc, Nat.mul_comm k] at h'
  by_cases hge : d * k ≤ n
  · obtain ⟨r, rfl⟩ := Nat.exists_eq_add_of_le hge
    have hr : r < d := by omega
    rw [roundDiv, Nat.mul_add_mod, Nat.mul_add_div hd, Nat.mod_eq_of_lt hr, Nat.div_eq_of_lt hr,
      if_pos (by omega), Nat.add_zero]
  · cases k with
    | zero => omega
    | succ k =>
        rw [Nat.mul_succ] at h h' hge
        obtain ⟨r, rfl⟩ := Nat.exists_eq_add_of_le (show d * k ≤ n by omega)
        have hr : r < d := by omega
        rw [roundDiv, Nat.mul_add_mod, Nat.mul_add_div hd, Nat.mod_eq_of_lt hr,
          Nat.div_eq_of_lt hr, if_neg (by omega), if_pos (by omega), Nat.add_zero]

theorem roundUnits_eq_of_near (hu : spacing u ∣ u) (h : 2 * n < (2 * u + 1) * d)
    (h' : 2 * u * d < 2 * n + d) : roundUnits n d = u := by
  have hle : n / d ≤ u := by
    refine Nat.le_of_lt_succ (Nat.div_lt_of_lt_mul (?_ : n < d * (u + 1)))
    have hnext : (2 * u + 1) * d ≤ 2 * (d * (u + 1)) := by
      calc (2 * u + 1) * d
        _ ≤ (2 * u + 2) * d := Nat.mul_le_mul_right d (by omega)
        _ = 2 * (d * (u + 1)) := by ring
    omega
  have hspacing := spacing_pos (n / d)
  rw [roundUnits]
  generalize hs : spacing (n / d) = s at hspacing
  obtain ⟨m, hm⟩ : s ∣ u := hs ▸ Nat.dvd_trans (spacing_dvd_spacing hle) hu
  have hwide : d ≤ d * s := Nat.le_mul_of_pos_right d hspacing
  have hmul : 2 * u * d = 2 * m * (d * s) := by
    rw [hm]
    ring
  have hround : roundDiv n (d * s) = m := by
    apply roundDiv_eq_of_near
    · rw [Nat.add_mul, Nat.one_mul, hmul] at h
      rw [Nat.add_mul, Nat.one_mul]
      omega
    · omega
  rw [hround, hm, Nat.mul_comm]

end TemplateExpr.Double
