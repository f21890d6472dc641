import TemplateExpr.Proofs.Host.Recording

namespace TemplateExpr

variable {σ : Type}

inductive Effective where
  | absent
  | function (f : Handle)
  | notCallable
  | value (v : Value)

def Effective.ofAction : Value → Effective
  | .function f => .function f
  | _ => .notCallable

def Bindings.effective (b : Bindings) (d : DenyList) (name : String) : Effective :=
  if d.contains name then .absent
  else match b.action? name, b.field? name with
    | some a, _ => .ofAction a
    | none, some v => .value v
    | none, none => .absent

def Scope.effective (s : Scope) (name : String) : Effective :=
  s.bindings.effective s.deny name

mutual

def Expr.names : Expr → List String
  | .literal _ _ => []
  | .name _ s => [s]
  | .member _ e _ => e.names
  | .index _ e k => e.names ++ k.names
  | .unary _ _ e => e.names
  | .binary _ _ l r => l.names ++ r.names
  | .ternary _ p yes no => p.names ++ (yes.names ++ no.names)
  | .array _ items => Expr.itemsNames items
  | .call _ s => [s]

def Expr.itemsNames : List Expr → List String
  | [] => []
  | e :: es => e.names ++ Expr.itemsNames es

end

namespace Scope

variable {s s₁ s₂ : Scope} {name : String}

theorem action?_eq_some {v : Value} :
    s.action? name = some v ↔ s.deny.contains name = false ∧ s.bindings.action? name = some v := by
  unfold action?
  split
  · simp_all
  · simp_all

theorem resolve_eq_value {v : Value} :
    s.resolve name = .value v ↔ s.deny.contains name = false ∧ s.bindings.action? name = none ∧
      s.bindings.field? name = some v := by
  unfold resolve
  split
  · simp_all
  · cases s.bindings.action? name <;> cases s.bindings.field? name <;> simp_all

theorem action?_eq_function {f : Handle} :
    s.action? name = some (.function f) ↔ s.effective name = .function f := by
  unfold action? effective Bindings.effective
  split
  · simp
  · cases s.bindings.action? name with
    | none => cases s.bindings.field? name <;> simp
    | some a => cases a <;> simp [Effective.ofAction]

theorem callAction_of_function (host : Host σ) {f : Handle} (h : s.effective name = .function f) :
    Expr.callAction host s name = (do
      match ← host.invoke f s.receiver with
      | .ok v => pure v
      | .error reason => throw (.runtime (.actionFailed name reason))) := by
  have hf := action?_eq_function.2 h
  unfold Expr.callAction
  split
  · rename_i f' hf'
    cases hf.symm.trans hf'
    rfl
  · rename_i hne
    exact absurd hf (hne f)

theorem callAction_of_ne_function (host : Host σ) (h : ∀ f, s.effective name ≠ .function f) :
    Expr.callAction host s name = throw (.runtime (.notFunction name)) := by
  unfold Expr.callAction
  split
  · rename_i f hf
    exact absurd (action?_eq_function.1 hf) (h f)
  · rfl

theorem callAction_congr (host : Host σ) (hr : s₁.receiver = s₂.receiver)
    (h : s₁.effective name = s₂.effective name) :
    Expr.callAction host s₁ name = Expr.callAction host s₂ name := by
  by_cases hf : ∃ f, s₂.effective name = .function f
  · obtain ⟨f, hf⟩ := hf
    rw [callAction_of_function host hf, callAction_of_function host (h.trans hf), hr]
  · have hne : ∀ f, s₂.effective name ≠ .function f := fun f hf' => hf ⟨f, hf'⟩
    rw [callAction_of_ne_function host hne, callAction_of_ne_function host (by rwa [h])]

theorem evaluate_name (host : Host σ) (o : Nat) :
    Expr.evaluate host s (.name o name) = match s.effective name with
      | .value v => pure v
      | .absent => pure .undefined
      | _ => Expr.callAction host s name := by
  rw [Expr.evaluate, resolve, effective, Bindings.effective]
  by_cases hd : s.deny.contains name
  · rw [if_pos hd, if_pos hd]
  · rw [if_neg hd, if_neg hd]
    cases s.bindings.action? name with
    | none => cases s.bindings.field? name <;> rfl
    | some a => cases a <;> rfl

theorem evaluateItems_congr (host : Host σ) {items : List Expr}
    (h : ∀ e ∈ items, (∀ n ∈ e.names, s₁.effective n = s₂.effective n) →
      e.evaluate host s₁ = e.evaluate host s₂)
    (hn : ∀ n ∈ Expr.itemsNames items, s₁.effective n = s₂.effective n) :
    Expr.evaluateItems host s₁ items = Expr.evaluateItems host s₂ items := by
  induction items with
  | nil => rw [Expr.evaluateItems, Expr.evaluateItems]
  | cons e es ih =>
      obtain ⟨he, hes⟩ := List.forall_mem_cons.1 h
      have hhead := he fun n hm => hn n (by simp [Expr.itemsNames, hm])
      have htail := ih hes fun n hm => hn n (by simp [Expr.itemsNames, hm])
      rw [Expr.evaluateItems, Expr.evaluateItems, hhead, htail]

theorem evaluate_congr (host : Host σ) (hr : s₁.receiver = s₂.receiver) (e : Expr)
    (h : ∀ n ∈ e.names, s₁.effective n = s₂.effective n) :
    e.evaluate host s₁ = e.evaluate host s₂ := by
  induction e with
  | literal o l => rw [Expr.evaluate, Expr.evaluate]
  | name o s =>
      have hs := h s (by simp [Expr.names])
      rw [evaluate_name, evaluate_name, hs, callAction_congr host hr hs]
  | member o e p ih =>
      have he := ih fun n hm => h n (by simp [Expr.names, hm])
      rw [Expr.evaluate, Expr.evaluate, he]
  | index o e k ihe ihk =>
      have he := ihe fun n hm => h n (by simp [Expr.names, hm])
      have hk := ihk fun n hm => h n (by simp [Expr.names, hm])
      rw [Expr.evaluate, Expr.evaluate, he, hk]
  | unary o op e ih =>
      have he := ih fun n hm => h n (by simp [Expr.names, hm])
      rw [Expr.evaluate, Expr.evaluate, he]
  | binary o op l r ihl ihr =>
      have hl := ihl fun n hm => h n (by simp [Expr.names, hm])
      have hr := ihr fun n hm => h n (by simp [Expr.names, hm])
      rw [Expr.evaluate, Expr.evaluate, hl, hr]
  | ternary o p yes no ihp ihy ihn =>
      have hp := ihp fun n hm => h n (by simp [Expr.names, hm])
      have hy := ihy fun n hm => h n (by simp [Expr.names, hm])
      have hn := ihn fun n hm => h n (by simp [Expr.names, hm])
      rw [Expr.evaluate, Expr.evaluate, hp, hy, hn]
  | array o items ih =>
      have hitems := evaluateItems_congr host ih fun n hm => h n (by simpa [Expr.names] using hm)
      rw [Expr.evaluate, Expr.evaluate, hitems]
  | call o s =>
      rw [Expr.evaluate, Expr.evaluate]
      exact callAction_congr host hr (h s (by simp [Expr.names]))

end Scope

end TemplateExpr
