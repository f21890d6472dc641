import TemplateExpr.Json.Basic

namespace TemplateExpr

namespace Double

variable {a b c : Double}

-- The place of a double among the whole units, the infinities right behind all that is finite.
def position : Double → Int
  | .nan => 0
  | .infinite s => if s then -bound else bound
  | .finite x => x.signedUnits

theorem Finite.signedUnits_bounds (x : Finite) :
    -(bound : Int) < x.signedUnits ∧ x.signedUnits < bound := by
  have hlt := x.lt_bound
  unfold signedUnits
  split <;> omega

theorem compare?_eq_none : a.compare? b = none ↔ a = .nan ∨ b = .nan := by
  cases a <;> cases b <;> simp [compare?]

theorem compare_not (s t : Bool) :
    compare (!s) (!t) = compare (position (.infinite s)) (position (.infinite t)) := by
  have hbound : -(bound : Int) < bound := by
    have := bound_pos
    omega
  cases s <;> cases t
  · exact (Int.compare_eq_eq.2 rfl).symm
  · exact (Int.compare_eq_gt.2 hbound).symm
  · exact (Int.compare_eq_lt.2 hbound).symm
  · exact (Int.compare_eq_eq.2 rfl).symm

theorem compare?_eq_compare (ha : a ≠ .nan) (hb : b ≠ .nan) :
    a.compare? b = some (compare a.position b.position) := by
  cases a with
  | nan => exact absurd rfl ha
  | infinite s =>
      cases b with
      | nan => exact absurd rfl hb
      | infinite t => exact congrArg some (compare_not s t)
      | finite y =>
          obtain ⟨hlower, hupper⟩ := y.signedUnits_bounds
          cases s
          · exact congrArg some (Int.compare_eq_gt.2 hupper).symm
          · exact congrArg some (Int.compare_eq_lt.2 hlower).symm
  | finite x =>
      cases b with
      | nan => exact absurd rfl hb
      | infinite t =>
          obtain ⟨hlower, hupper⟩ := x.signedUnits_bounds
          cases t
          · exact congrArg some (Int.compare_eq_lt.2 hupper).symm
          · exact congrArg some (Int.compare_eq_gt.2 hlower).symm
      | finite y => rfl

theorem same_eq_true : a.same b = true ↔ a ≠ .nan ∧ b ≠ .nan ∧ a.position = b.position := by
  rw [same, beq_iff_eq]
  by_cases h : a = .nan ∨ b = .nan
  · rw [compare?_eq_none.2 h]
    constructor
    · rintro ⟨⟩
    · rintro ⟨ha, hb, -⟩
      exact absurd h (not_or.2 ⟨ha, hb⟩)
  · obtain ⟨ha, hb⟩ := not_or.1 h
    rw [compare?_eq_compare ha hb, Option.some.injEq, Int.compare_eq_eq]
    exact ⟨fun h => ⟨ha, hb, h⟩, fun h => h.2.2⟩

theorem same_self (ha : a ≠ .nan) : a.same a = true :=
  same_eq_true.2 ⟨ha, ha, rfl⟩

theorem same_comm (h : a.same b = true) : b.same a = true := by
  obtain ⟨ha, hb, hab⟩ := same_eq_true.1 h
  exact same_eq_true.2 ⟨hb, ha, hab.symm⟩

theorem same_trans (hab : a.same b = true) (hbc : b.same c = true) : a.same c = true := by
  obtain ⟨ha, -, hab⟩ := same_eq_true.1 hab
  obtain ⟨-, hc, hbc⟩ := same_eq_true.1 hbc
  exact same_eq_true.2 ⟨ha, hc, hab.trans hbc⟩

theorem same_finite {x y : Finite} :
    same (.finite x) (.finite y) = true ↔ x.signedUnits = y.signedUnits := by
  simp [same, compare?]

theorem ofRatio_ne_nan (negative : Bool) (n d : Nat) : ofRatio negative n d ≠ .nan := by
  unfold ofRatio
  split <;> simp

end Double

theorem Number.toDouble_ne_nan (n : Number) : n.toDouble ≠ .nan := by
  cases n with
  | integer n =>
      rw [toDouble, Double.ofInt, Double.ofUnits]
      exact Double.ofRatio_ne_nan _ _ _
  | double x => simp [toDouble]

end TemplateExpr
