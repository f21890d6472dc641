import TemplateExpr.Proofs.Host.Closure
import TemplateExpr.Proofs.Host.Recording
import TemplateExpr.Proofs.Value.Visible

namespace TemplateExpr

variable {σ α β γ δ : Type}

mutual

def Expr.binaryOps : Expr → List BinaryOp
  | .literal _ _ => []
  | .name _ _ => []
  | .member _ e _ => e.binaryOps
  | .index _ e k => e.binaryOps ++ k.binaryOps
  | .unary _ _ e => e.binaryOps
  | .binary _ op l r => op :: (l.binaryOps ++ r.binaryOps)
  | .ternary _ p yes no => p.binaryOps ++ (yes.binaryOps ++ no.binaryOps)
  | .array _ items => Expr.itemsBinaryOps items
  | .call _ _ => []

def Expr.itemsBinaryOps : List Expr → List BinaryOp
  | [] => []
  | e :: es => e.binaryOps ++ Expr.itemsBinaryOps es

end

def Run.AgreeOn (view : α → β) (x y : Run σ α) : Prop :=
  (do let a ← x; pure (view a)) = (do let b ← y; pure (view b) : Run σ β)

namespace Run.AgreeOn

variable {view : α → β} {view' : γ → δ} {x y : Run σ α} {f g : α → Run σ γ}

theorem refl (view : α → β) (x : Run σ α) : AgreeOn view x x :=
  rfl

theorem pure {a b : α} (h : view a = view b) : AgreeOn (σ := σ) view (pure a) (pure b) := by
  simp only [AgreeOn, pure_bind, h]

theorem apply (h : AgreeOn view x y) (s : σ) :
    (x s).1.map view = (y s).1.map view ∧ (x s).2 = (y s).2 := by
  have hs := congrFun h s
  rw [Run.map_apply, Run.map_apply] at hs
  exact Prod.mk.inj hs

theorem bind (h : AgreeOn view x y) (hf : ∀ a b, view a = view b → AgreeOn view' (f a) (g b)) :
    AgreeOn view' (x >>= f) (y >>= g) := by
  funext s
  obtain ⟨hresult, hstate⟩ := h.apply s
  rw [Run.map_apply, Run.map_apply, Run.bind_apply, Run.bind_apply]
  rcases hx : x s with ⟨e | a, t⟩ <;> rcases hy : y s with ⟨e' | b, t'⟩ <;>
    simp only [hx, hy, Except.map, Except.error.injEq, Except.ok.injEq, reduceCtorEq] at hstate hresult
  · rw [hstate, hresult]
  · obtain ⟨hresult, hstate'⟩ := (hf a b hresult).apply t
    rw [← hstate, hresult, hstate']

end Run.AgreeOn

structure Bindings.Similar (b₁ b₂ : Bindings) : Prop where
  field : ∀ name, (b₁.field? name).map Value.visible = (b₂.field? name).map Value.visible
  action : ∀ name, b₁.action? name = b₂.action? name

namespace Bindings.Similar

variable {b₁ b₂ : Bindings} {receiver : Value} {d : DenyList}

theorem callAction (hb : b₁.Similar b₂) (host : Host σ) (name : String) :
    Expr.callAction host ⟨b₁, receiver, d⟩ name = Expr.callAction host ⟨b₂, receiver, d⟩ name := by
  simp only [Expr.callAction, Scope.action?, hb.action]

theorem evaluate_name (hb : b₁.Similar b₂) (host : Host σ) (o : Nat) (name : String) :
    Run.AgreeOn Value.visible (Expr.evaluate host ⟨b₁, receiver, d⟩ (.name o name))
      (Expr.evaluate host ⟨b₂, receiver, d⟩ (.name o name)) := by
  have hfield := hb.field name
  rw [Expr.evaluate, Expr.evaluate, hb.callAction host name]
  simp only [Scope.resolve, hb.action]
  by_cases hd : d.contains name
  · rw [if_pos hd, if_pos hd]
    exact .refl _ _
  · rw [if_neg hd, if_neg hd]
    cases b₂.action? name with
    | some a => exact .refl _ _
    | none =>
        cases h₁ : b₁.field? name <;> cases h₂ : b₂.field? name <;>
          simp only [h₁, h₂, Option.map, Option.some.injEq, reduceCtorEq] at hfield
        · exact .refl _ _
        · exact .pure hfield

theorem read {a b : Value} (h : a.Similar b) (key : String) :
    Run.AgreeOn (σ := σ) Value.visible (Expr.liftRuntime (a.read key))
      (Expr.liftRuntime (b.read key)) := by
  have hread : (a.read key).map Value.visible = (b.read key).map Value.visible := by
    rw [← Value.read_visible, ← Value.read_visible, h]
  cases ha : a.read key <;> cases hb : b.read key <;>
    simp only [ha, hb, Except.map, Except.error.injEq, Except.ok.injEq, reduceCtorEq] at hread
  · rw [hread]
    exact .refl _ _
  · exact .pure hread

theorem evaluateItems (host : Host σ) {s₁ s₂ : Scope} {items : List Expr}
    (h : ∀ e ∈ items, (∀ op ∈ e.binaryOps, op.isStrictEquality = false) →
      Run.AgreeOn Value.visible (e.evaluate host s₁) (e.evaluate host s₂))
    (hop : ∀ op ∈ Expr.itemsBinaryOps items, op.isStrictEquality = false) :
    Run.AgreeOn Json.visibleItems (Expr.evaluateItems host s₁ items)
      (Expr.evaluateItems host s₂ items) := by
  induction items with
  | nil =>
      rw [Expr.evaluateItems, Expr.evaluateItems]
      exact .refl _ _
  | cons e es ih =>
      obtain ⟨he, hes⟩ := List.forall_mem_cons.1 h
      have hhead := he fun op hm => hop op (by simp [Expr.itemsBinaryOps, hm])
      have htail := ih hes fun op hm => hop op (by simp [Expr.itemsBinaryOps, hm])
      rw [Expr.evaluateItems, Expr.evaluateItems]
      refine hhead.bind fun v w hv => htail.bind fun vs ws hvs => .pure ?_
      rw [Json.visibleItems, Json.visibleItems, ← Value.toJson_visible, ← Value.toJson_visible, hv,
        hvs]

theorem evaluate (hb : b₁.Similar b₂) (host : Host σ) (e : Expr)
    (hop : ∀ op ∈ e.binaryOps, op.isStrictEquality = false) :
    Run.AgreeOn Value.visible (e.evaluate host ⟨b₁, receiver, d⟩)
      (e.evaluate host ⟨b₂, receiver, d⟩) := by
  induction e with
  | literal o l =>
      rw [Expr.evaluate, Expr.evaluate]
      exact .refl _ _
  | name o s => exact hb.evaluate_name host o s
  | member o e p ih =>
      have he := ih fun op hm => hop op (by simp [Expr.binaryOps, hm])
      rw [Expr.evaluate, Expr.evaluate]
      exact he.bind fun a b hab => read hab p
  | index o e k ihe ihk =>
      have he := ihe fun op hm => hop op (by simp [Expr.binaryOps, hm])
      have hk := ihk fun op hm => hop op (by simp [Expr.binaryOps, hm])
      rw [Expr.evaluate, Expr.evaluate]
      refine he.bind fun a b hab => hk.bind fun key key' hkey => ?_
      -- A key is a text, and similar values have the same one.
      rw [Value.toKey, Value.toKey, ← key.toText_visible, hkey, Value.toText_visible]
      exact read hab _
  | unary o op e ih =>
      have he := ih fun op hm => hop op (by simp [Expr.binaryOps, hm])
      rw [Expr.evaluate, Expr.evaluate]
      refine he.bind fun a b hab => .pure ?_
      rw [← op.apply_visible a, hab, op.apply_visible]
  | binary o op l r ihl ihr =>
      have hne := hop op (by simp [Expr.binaryOps])
      have hl := ihl fun op hm => hop op (by simp [Expr.binaryOps, hm])
      have hr := ihr fun op hm => hop op (by simp [Expr.binaryOps, hm])
      rw [Expr.evaluate, Expr.evaluate]
      refine hl.bind fun a b hab => hr.bind fun a' b' hab' => .pure ?_
      rw [← BinaryOp.apply_visible hne a, hab, hab', BinaryOp.apply_visible hne]
  | ternary o p yes no ihp ihy ihn =>
      have hp := ihp fun op hm => hop op (by simp [Expr.binaryOps, hm])
      have hy := ihy fun op hm => hop op (by simp [Expr.binaryOps, hm])
      have hn := ihn fun op hm => hop op (by simp [Expr.binaryOps, hm])
      rw [Expr.evaluate, Expr.evaluate]
      refine hp.bind fun a b hab => ?_
      rw [← a.isTruthy_visible, hab, Value.isTruthy_visible]
      split
      · exact hy
      · exact hn
  | array o items ih =>
      have hitems := evaluateItems host ih fun op hm => hop op (by simpa [Expr.binaryOps] using hm)
      rw [Expr.evaluate, Expr.evaluate]
      refine hitems.bind fun vs ws hvs => .pure ?_
      rw [Value.visible, Value.visible, Json.visible, Json.visible, hvs]
  | call o s =>
      rw [Expr.evaluate, Expr.evaluate, hb.callAction host s]
      exact .refl _ _

end Bindings.Similar

end TemplateExpr
