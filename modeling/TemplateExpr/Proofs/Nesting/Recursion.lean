import Mathlib.Order.Bounds.Defs
import TemplateExpr.Expr.Evaluate
import TemplateExpr.Proofs.Nesting.Highest

namespace TemplateExpr

namespace Expr

def children : Expr → List Expr
  | .literal _ _ => []
  | .name _ _ => []
  | .member _ e _ => [e]
  | .index _ e k => [e, k]
  | .unary _ _ e => [e]
  | .binary _ _ l r => [l, r]
  | .ternary _ p yes no => [p, yes, no]
  | .array _ items => items
  | .call _ _ => []

theorem height_pos (e : Expr) : 0 < e.height := by
  cases e <;> simp [height]

theorem height_le_itemsHeight {e : Expr} {items : List Expr} (h : e ∈ items) :
    e.height ≤ itemsHeight items := by
  induction h with
  | head => exact Nat.le_max_left _ _
  | tail _ _ ih => exact Nat.le_trans ih (Nat.le_max_right _ _)

theorem height_lt_of_mem_children {x e : Expr} (h : x ∈ e.children) : x.height < e.height := by
  cases e with
  | array o items => exact Nat.lt_succ_of_le (height_le_itemsHeight h)
  | _ => grind [children, height]

variable {σ : Type} (host : Host σ) (scope : Scope)

/-- One call of the evaluation, in which the nodes directly below are evaluated by `below`. -/
def step (below : Expr → Run σ Value) : Expr → Run σ Value
  | .literal _ l => pure l.toValue
  | .name _ s => match scope.resolve s with
      | .value v => pure v
      | .action _ => callAction host scope s
      | .absent => pure .undefined
  | .member _ e p => do
      let target ← below e
      liftRuntime (target.read p)
  | .index _ e k => do
      let target ← below e
      let key ← below k
      liftRuntime (target.read key.toKey)
  | .unary _ op e => do
      let v ← below e
      pure (op.apply v)
  | .binary _ op l r => do
      let a ← below l
      let b ← below r
      pure (op.apply a b)
  | .ternary _ p yes no => do
      let v ← below p
      if v.isTruthy then below yes else below no
  | .array _ items => do
      let vs ← items.mapM fun e => Value.toJson <$> below e
      pure (.json (.array vs))
  | .call _ s => callAction host scope s

theorem evaluateItems_eq_mapM (items : List Expr) :
    evaluateItems host scope items = items.mapM fun e => Value.toJson <$> evaluate host scope e := by
  induction items with
  | nil => rfl
  | cons e es ih =>
      simp only [evaluateItems, ih, List.mapM_cons, map_eq_pure_bind, bind_assoc, pure_bind]

theorem step_evaluate (e : Expr) :
    step host scope (evaluate host scope) e = evaluate host scope e := by
  cases e with
  | name o s => cases h : scope.resolve s <;> simp only [step, evaluate, h]
  | array o items => rw [step, evaluate, evaluateItems_eq_mapM]
  | _ => rw [step, evaluate]

theorem mapM_congr {α β : Type} {f g : α → Run σ β} {xs : List α} (h : ∀ x ∈ xs, f x = g x) :
    xs.mapM f = xs.mapM g := by
  induction xs with
  | nil => rfl
  | cons x xs ih =>
      obtain ⟨hx, hxs⟩ := List.forall_mem_cons.1 h
      simp only [List.mapM_cons, hx, ih hxs]

theorem step_congr {f g : Expr → Run σ Value} {e : Expr} (h : ∀ x ∈ e.children, f x = g x) :
    step host scope f e = step host scope g e := by
  cases e with
  | array o items =>
      have hitems : (items.mapM fun x => Value.toJson <$> f x) =
          items.mapM fun x => Value.toJson <$> g x :=
        mapM_congr fun x hx => by rw [h x hx]
      rw [step, step, hitems]
  | _ => simp only [children, List.forall_mem_cons] at h; simp only [step, h]

/-- The evaluation with so many calls open at a time, and another run where it would need one more. -/
def evaluateWithin (exhausted : Run σ Value) : Nat → Expr → Run σ Value
  | 0, _ => exhausted
  | n + 1, e => e.step host scope (evaluateWithin exhausted n)

theorem evaluateWithin_eq (exhausted : Run σ Value) {n : Nat} {e : Expr} (h : e.height ≤ n) :
    evaluateWithin host scope exhausted n e = evaluate host scope e := by
  induction n generalizing e with
  | zero => exact absurd (height_pos e) (by omega)
  | succ n ih =>
      rw [evaluateWithin, ← step_evaluate]
      refine step_congr host scope fun x hx => ih ?_
      have := height_lt_of_mem_children hx
      omega

end Expr

namespace Grammar

theorem isGreatest_height {d : Nat} (hd : 0 < d) :
    IsGreatest {h | ∃ source e, Expr.parse d source = .ok e ∧ e.height = h}
        (5 * d * (d - 1) / 2 + 2 * d - 1) ∧
      ∀ {σ : Type} (host : Host σ) (scope : Scope) (exhausted : Run σ Value) source e,
        Expr.parse d source = .ok e →
          e.evaluateWithin host scope exhausted (5 * d * (d - 1) / 2 + 2 * d - 1) =
            e.evaluate host scope := by
  refine ⟨⟨?_, ?_⟩, ?_⟩
  · obtain ⟨n, rfl⟩ := Nat.exists_eq_add_one.2 hd
    exact ⟨_, parse_highestSource n⟩
  · rintro h ⟨source, e, hp, rfl⟩
    exact height_le_of_parse hp
  · intro σ host scope exhausted source e hp
    exact Expr.evaluateWithin_eq host scope exhausted (height_le_of_parse hp)

theorem isGreatest_height_two :
    0 < 2 ∧ IsGreatest {h | ∃ source e, Expr.parse 2 source = .ok e ∧ e.height = h} 8 ∧
      ∃ e, Expr.parse 2 "[ a ] . b * a + a < a === a ? a : a " = .ok e ∧ e.height = 8 ∧
        ∀ {σ : Type} (host : Host σ) (scope : Scope) (exhausted : Run σ Value),
          e.evaluateWithin host scope exhausted 8 = e.evaluate host scope := by
  have hsource : highestSource 1 = "[ a ] . b * a + a < a === a ? a : a " := by decide
  obtain ⟨hgreatest, hwithin⟩ := isGreatest_height (by decide : 0 < 2)
  obtain ⟨e, hp, hh⟩ := parse_highestSource 1
  rw [hsource] at hp
  exact ⟨by decide, hgreatest, e, hp, hh, fun host scope exhausted =>
    hwithin host scope exhausted _ e hp⟩

end Grammar

end TemplateExpr
