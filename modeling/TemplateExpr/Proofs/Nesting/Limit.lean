import TemplateExpr.Proofs.Nesting.Highest

namespace TemplateExpr.Grammar

theorem exists_higher_than_limit (d : Nat) :
    ∃ source e, Expr.parse (d + 2) source = .ok e ∧ d + 2 < e.height := by
  obtain ⟨e, hp, hh⟩ := parse_highestSource (d + 1)
  refine ⟨_, e, hp, ?_⟩
  rw [hh, maxHeight_succ (Nat.succ_pos d)]
  omega

theorem height_le_limit_iff (limit : Nat) :
    (∀ source e, Expr.parse limit source = .ok e → e.height ≤ maxHeight limit) ∧
      ((∀ source e, Expr.parse limit source = .ok e → e.height ≤ limit) ↔ limit ≤ 1) := by
  constructor
  · intro source e hp
    exact height_le_of_parse hp
  constructor
  · intro h
    refine Nat.le_of_not_lt fun hlt => ?_
    obtain ⟨d, rfl⟩ := Nat.exists_eq_add_of_le' hlt
    obtain ⟨source, e, hp, hh⟩ := exists_higher_than_limit d
    have := h source e hp
    omega
  · intro h source e hp
    have hle := height_le_of_parse hp
    have hmax : maxHeight limit = limit := by
      rcases Nat.le_one_iff_eq_zero_or_eq_one.1 h with rfl | rfl <;> rfl
    rwa [hmax] at hle

theorem height_gt_limit_of_product :
    ∃ e, Expr.parse 2 "a.b*c" = .ok e ∧ 2 < e.height := by
  refine ⟨.binary 0 .mul (.member 0 (.name 0 "a") "b") (.name 4 "c"), ?_, by decide⟩
  with_unfolding_all rfl

end TemplateExpr.Grammar
