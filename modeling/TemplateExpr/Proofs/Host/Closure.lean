import TemplateExpr.Expr.Evaluate

namespace TemplateExpr

variable {σ τ α β : Type}

theorem Run.map_apply (x : Run σ α) (view : α → β) (s : σ) :
    (do let a ← x; pure (view a) : Run σ β) s = ((x s).1.map view, (x s).2) := by
  rw [Run.bind_apply]
  rcases x s with ⟨_ | a, t⟩ <;> rfl

structure Run.Congruence (R : ∀ {α : Type}, Run σ α → Run τ α → Prop) : Prop where
  pure : ∀ {α : Type} (a : α), R (pure a) (pure a)
  bind : ∀ {α β : Type} {x : Run σ α} {y : Run τ α} {f : α → Run σ β} {g : α → Run τ β},
    R x y → (∀ a, R (f a) (g a)) → R (x >>= f) (y >>= g)
  fault : ∀ {α : Type} (f : RuntimeFault),
    R (throw (.runtime f) : Run σ α) (throw (.runtime f) : Run τ α)

namespace Run.Congruence

variable {R : ∀ {α : Type}, Run σ α → Run τ α → Prop} {host : Host σ} {host' : Host τ}
  {scope : Scope}

theorem liftRuntime {α : Type} (h : Congruence R) (x : Except RuntimeFault α) :
    R (Expr.liftRuntime x) (Expr.liftRuntime x) := by
  cases x with
  | ok a => exact h.pure a
  | error f => exact h.fault f

theorem callAction (h : Congruence R)
    (hinvoke : ∀ name f, scope.action? name = some (.function f) →
      R (liftM (host.invoke f scope.receiver)) (liftM (host'.invoke f scope.receiver)))
    (name : String) : R (Expr.callAction host scope name) (Expr.callAction host' scope name) := by
  unfold Expr.callAction
  split
  · rename_i f hf
    refine h.bind (hinvoke name f hf) fun r => ?_
    cases r with
    | ok v => exact h.pure v
    | error reason => exact h.fault (.actionFailed name reason)
  · exact h.fault (.notFunction name)

theorem evaluateItems (h : Congruence R) {items : List Expr}
    (he : ∀ e ∈ items, R (e.evaluate host scope) (e.evaluate host' scope)) :
    R (Expr.evaluateItems host scope items) (Expr.evaluateItems host' scope items) := by
  induction items with
  | nil =>
      rw [Expr.evaluateItems, Expr.evaluateItems]
      exact h.pure []
  | cons e es ih =>
      obtain ⟨he, hes⟩ := List.forall_mem_cons.1 he
      rw [Expr.evaluateItems, Expr.evaluateItems]
      exact h.bind he fun v => h.bind (ih hes) fun vs => h.pure (v.toJson :: vs)

theorem evaluate (h : Congruence R)
    (hinvoke : ∀ name f, scope.action? name = some (.function f) →
      R (liftM (host.invoke f scope.receiver)) (liftM (host'.invoke f scope.receiver)))
    (e : Expr) : R (e.evaluate host scope) (e.evaluate host' scope) := by
  induction e with
  | literal o l =>
      rw [Expr.evaluate, Expr.evaluate]
      exact h.pure l.toValue
  | name o s =>
      rw [Expr.evaluate, Expr.evaluate]
      cases scope.resolve s with
      | value v => exact h.pure v
      | action _ => exact h.callAction hinvoke s
      | absent => exact h.pure Value.undefined
  | member o e p ih =>
      rw [Expr.evaluate, Expr.evaluate]
      exact h.bind ih fun target => h.liftRuntime (target.read p)
  | index o e k ihe ihk =>
      rw [Expr.evaluate, Expr.evaluate]
      exact h.bind ihe fun target => h.bind ihk fun key => h.liftRuntime (target.read key.toKey)
  | unary o op e ih =>
      rw [Expr.evaluate, Expr.evaluate]
      exact h.bind ih fun v => h.pure (op.apply v)
  | binary o op l r ihl ihr =>
      rw [Expr.evaluate, Expr.evaluate]
      exact h.bind ihl fun a => h.bind ihr fun b => h.pure (op.apply a b)
  | ternary o p yes no ihp ihy ihn =>
      rw [Expr.evaluate, Expr.evaluate]
      refine h.bind ihp fun v => ?_
      split
      · exact ihy
      · exact ihn
  | array o items ih =>
      rw [Expr.evaluate, Expr.evaluate]
      exact h.bind (h.evaluateItems ih) fun vs => h.pure (Value.json (.array vs))
  | call o s =>
      rw [Expr.evaluate, Expr.evaluate]
      exact h.callAction hinvoke s

end Run.Congruence

end TemplateExpr
