import TemplateExpr.Proofs.Expr.Normal

namespace TemplateExpr

variable {σ α β : Type}

structure Exchange where
  function : Handle
  receiver : Value
  answer : Except String Value

def Host.transcribing (host : Host σ) : Host (σ × List Exchange) where
  isolatedScope := fun (s, log) =>
    let (v, t) := host.isolatedScope s
    (v, t, log)
  invoke := fun f receiver (s, log) =>
    let (r, t) := host.invoke f receiver s
    (r, t, log ++ [⟨f, receiver, r⟩])

def Evaluator.exchanges (e : Evaluator) (host : Host σ) (source : String) (data : Bindings)
    (receiver : Value) (s : σ) : List Exchange :=
  (e.evaluate host.transcribing source data receiver (s, [])).2.2

def Transcribes (x : Run (σ × List Exchange) α) (y : Run σ α) : Prop :=
  ∀ s log, ((x (s, log)).1, (x (s, log)).2.1) = y s

theorem Transcribes.congruence : Run.Congruence fun {_} => Transcribes (σ := σ) where
  pure := fun _ _ _ => rfl
  fault := fun _ _ _ => rfl
  bind := by
    intro α β x y f g h hf s log
    have hs := h s log
    simp only [Run.bind_apply]
    rcases hx : x (s, log) with ⟨_ | a, t, log'⟩
    · rw [hx] at hs
      rw [← hs]
    · rw [hx] at hs
      rw [← hs]
      exact hf a t log'

theorem Transcribes.evaluate (host : Host σ) (scope : Scope) (x : Expr) :
    Transcribes (x.evaluate host.transcribing scope) (x.evaluate host scope) :=
  congruence.evaluate (fun _ _ _ _ _ => rfl) x

theorem Evaluator.evaluate_transcribing (e : Evaluator) (host : Host σ) (source : String)
    (data : Bindings) (receiver : Value) :
    Transcribes (e.evaluate host.transcribing source data receiver)
      (e.evaluate host source data receiver) := by
  intro s log
  have hscope : host.transcribing.isolatedScope (s, log) =
      ((host.isolatedScope s).1, (host.isolatedScope s).2, log) := rfl
  rw [evaluate_apply, evaluate_apply, hscope]
  cases (host.isolatedScope s).1.isolation with
  | error f => rfl
  | ok u => cases Expr.parse e.maxDepth source with
    | error m => rfl
    | ok x => exact Transcribes.evaluate host ⟨data, receiver, e.deny⟩ x _ log

namespace Value

theorem isFunction_ofDouble (x : Double) : (ofDouble x).isFunction = false := by
  unfold ofDouble
  split <;> rfl

theorem isFunction_elementOf {elements : List Value} (h : ∀ v ∈ elements, v.isFunction = false)
    {key : String} {v : Value} (hv : elementOf elements key = some v) : v.isFunction = false := by
  rcases eq_or_mem_of_elementOf hv with rfl | hmem
  · rfl
  · exact h v hmem

theorem isFunction_property? {v w : Value} {key : String} (h : v.property? key = some w) :
    w.isFunction = false := by
  unfold property? at h
  split at h
  · cases h
  · split at h
    · obtain ⟨j, -, rfl⟩ := Option.map_eq_some_iff.1 h
      rfl
    · exact isFunction_elementOf (List.forall_mem_map.2 fun j _ => rfl) h
    · exact isFunction_elementOf (List.forall_mem_map.2 fun u _ => rfl) h
    · cases h

theorem isFunction_read {v w : Value} {key : String} (h : v.read key = .ok w) :
    w.isFunction = false := by
  unfold read at h
  split at h
  · cases h
  · cases h
  · cases h
    unfold get
    cases hp : v.property? key with
    | none => rfl
    | some w => exact isFunction_property? hp

end Value

theorem UnaryOp.isFunction_apply (op : UnaryOp) (v : Value) : (op.apply v).isFunction = false := by
  cases op with
  | neg => exact Value.isFunction_ofDouble _
  | not => rfl

theorem BinaryOp.isFunction_apply (op : BinaryOp) (a b : Value) :
    (op.apply a b).isFunction = false := by
  cases op with
  | add =>
      change (a.add b).isFunction = false
      rw [Value.add]
      split
      · rfl
      · exact Value.isFunction_ofDouble _
  | sub | mul | div => exact Value.isFunction_ofDouble _
  | _ => rfl

theorem Run.eq_of_pure {a b : α} {s u : σ} (h : (pure a : Run σ α) s = (.ok b, u)) : a = b :=
  Except.ok.inj (Prod.mk.inj h).1

-- A function that an expression can end with: what a field holds under one of its names, or what a
-- call answered.
inductive Provenance (scope : Scope) (x : Expr) (log : List Exchange) (g : Handle) : Prop
  | field (o : Nat) (name : String) : .name o name ∈ x.nodes →
      scope.deny.contains name = false → scope.bindings.action? name = none →
      scope.bindings.field? name = some (.function g) → Provenance scope x log g
  | answer (name : String) (f : Handle) : scope.deny.contains name = false →
      scope.bindings.action? name = some (.function f) →
      ⟨f, scope.receiver, .ok (.function g)⟩ ∈ log → Provenance scope x log g

namespace Expr

variable {host : Host σ} {scope : Scope} {x y : Expr} {g : Handle} {log : List Exchange}
  {p q : σ × List Exchange}

theorem provenance_of_nodes (h : Provenance scope x log g) (hxy : ∀ z ∈ x.nodes, z ∈ y.nodes) :
    Provenance scope y log g := by
  cases h with
  | field o name hmem hd ha hf => exact .field o name (hxy _ hmem) hd ha hf
  | answer name f hd ha hlog => exact .answer name f hd ha hlog

theorem provenance_of_callAction {name : String}
    (h : callAction host.transcribing scope name p = (.ok (.function g), q)) :
    Provenance scope x q.2 g := by
  by_cases hf : ∃ f, scope.effective name = .function f
  · obtain ⟨f, hf⟩ := hf
    rw [Scope.callAction_of_function _ hf] at h
    obtain ⟨r, t, hr, hv⟩ := Run.ok_of_bind h
    have hinvoke := Run.ok_of_liftM hr
    cases r with
    | error reason => cases hv
    | ok w =>
        cases hv
        obtain ⟨hd, ha⟩ := Scope.action?_eq_some.1 (Scope.action?_eq_function.2 hf)
        obtain ⟨hanswer, hlog⟩ := Prod.mk.inj hinvoke
        refine .answer name f hd ha ?_
        rw [← hlog, hanswer]
        exact List.mem_append_right _ (List.mem_singleton_self _)
  · rw [Scope.callAction_of_ne_function _ fun f h => hf ⟨f, h⟩] at h
    cases h

theorem provenance_name {o : Nat} {n : String}
    (h : (name o n).evaluate host.transcribing scope p = (.ok (.function g), q)) :
    Provenance scope (name o n) q.2 g := by
  rw [evaluate] at h
  cases hresolve : scope.resolve n with
  | value v =>
      rw [hresolve] at h
      cases h
      obtain ⟨hd, ha, hf⟩ := Scope.resolve_eq_value.1 hresolve
      exact .field o n (self_mem_nodes _) hd ha hf
  | action v =>
      rw [hresolve] at h
      exact provenance_of_callAction h
  | absent =>
      rw [hresolve] at h
      cases h

theorem provenance_of_evaluate (x : Expr)
    (h : x.evaluate host.transcribing scope p = (.ok (.function g), q)) :
    Provenance scope x q.2 g := by
  -- Only names, calls and the branches of a ternary pass a function on.
  induction x generalizing p with
  | literal o l => cases l <;> cases h
  | name o n => exact provenance_name h
  | member o e key ih =>
      rw [evaluate] at h
      obtain ⟨a, t, -, h⟩ := Run.ok_of_bind h
      cases Value.isFunction_read (ok_of_liftRuntime h)
  | index o e k ihe ihk =>
      rw [evaluate] at h
      obtain ⟨a, t, -, h⟩ := Run.ok_of_bind h
      obtain ⟨b, t', -, h⟩ := Run.ok_of_bind h
      cases Value.isFunction_read (ok_of_liftRuntime h)
  | unary o op e ih =>
      rw [evaluate] at h
      obtain ⟨a, t, -, h⟩ := Run.ok_of_bind h
      have hv := op.isFunction_apply a
      rw [Run.eq_of_pure h] at hv
      cases hv
  | binary o op l r ihl ihr =>
      rw [evaluate] at h
      obtain ⟨a, t, -, h⟩ := Run.ok_of_bind h
      obtain ⟨b, t', -, h⟩ := Run.ok_of_bind h
      have hv := op.isFunction_apply a b
      rw [Run.eq_of_pure h] at hv
      cases hv
  | ternary o c yes no ihc ihy ihn =>
      rw [evaluate] at h
      obtain ⟨a, t, -, h⟩ := Run.ok_of_bind h
      split at h
      · exact provenance_of_nodes (ihy h) fun z hz => by simp [nodes, hz]
      · exact provenance_of_nodes (ihn h) fun z hz => by simp [nodes, hz]
  | array o items ih =>
      rw [evaluate] at h
      obtain ⟨vs, t, -, h⟩ := Run.ok_of_bind h
      cases h
  | call o n =>
      rw [evaluate] at h
      exact provenance_of_callAction h

end Expr

namespace Evaluator

variable {e : Evaluator} {host : Host σ} {source : String} {data : Bindings} {receiver : Value}
  {s t : σ} {g : Handle}

theorem provenance_of_evaluate
    (h : e.evaluate host source data receiver s = (.ok (.function g), t)) :
    ∃ x, Expr.parse e.maxDepth source = .ok x ∧
      Provenance ⟨data, receiver, e.deny⟩ x (e.exchanges host source data receiver s) g := by
  have hrun := e.evaluate_transcribing host source data receiver s []
  unfold exchanges
  rcases hq : e.evaluate host.transcribing source data receiver (s, []) with ⟨r, q⟩
  rw [hq, h] at hrun
  obtain ⟨rfl, -⟩ := Prod.mk.inj hrun
  rw [evaluate_apply] at hq
  split at hq
  · cases hq
  · split at hq
    · cases hq
    · rename_i x hx
      exact ⟨x, hx, Expr.provenance_of_evaluate x hq⟩

theorem actions_are_not_handed_out (e : Evaluator) (host : Host σ) (source : String)
    (data : Bindings) (receiver : Value) (s : σ) :
    (∀ g t, e.evaluate host source data receiver s = (.ok (.function g), t) →
      ∃ x, Expr.parse e.maxDepth source = .ok x ∧
        Provenance ⟨data, receiver, e.deny⟩ x (e.exchanges host source data receiver s) g) ∧
    ∀ name g, data.action? name = some (.function g) →
      (∀ field, data.field? field ≠ some (.function g)) →
      (∀ c ∈ e.exchanges host source data receiver s, c.answer ≠ .ok (.function g)) →
        ∀ t, e.evaluate host source data receiver s ≠ (.ok (.function g), t) := by
  refine ⟨fun g t h => provenance_of_evaluate h, fun name g _ hfields hanswers t h => ?_⟩
  obtain ⟨x, -, hx⟩ := provenance_of_evaluate h
  cases hx with
  | field o n _ _ _ hf => exact hfields n hf
  | answer n f _ _ hlog => exact hanswers _ hlog rfl

theorem actions_are_not_handed_out_of_ternary :
    let host : Host Nat := ⟨pure (.json (.object [])), fun _ _ n => (.ok (.boolean true), n + 1)⟩
    let data : Bindings := ⟨[("b", .function 9)], [("f", .function 7)]⟩
    ∃ x, Expr.parse 8 "f() ? b : f" = .ok x ∧
      Provenance ⟨data, .null, {}⟩ x
        ((⟨{}, 8⟩ : Evaluator).exchanges host "f() ? b : f" data .null 1) 9 ∧
      ∀ t, (⟨{}, 8⟩ : Evaluator).evaluate host "f() ? b : f" data .null 1 ≠
        (.ok (.function 7), t) := by
  intro host data
  have hp : Expr.parse 8 "f() ? b : f" =
      .ok (.ternary 0 (.call 0 "f") (.name 6 "b") (.name 10 "f")) := by with_unfolding_all rfl
  obtain ⟨hprovenance, hsafe⟩ := actions_are_not_handed_out ⟨{}, 8⟩ host "f() ? b : f" data .null 1
  have hresult : (⟨{}, 8⟩ : Evaluator).evaluate host "f() ? b : f" data .null 1 =
      (.ok (.function 9), 2) := by
    rw [evaluate_of_parse _ _ hp rfl]
    rfl
  have hexchanges : (⟨{}, 8⟩ : Evaluator).exchanges host "f() ? b : f" data .null 1 =
      [⟨7, .null, .ok (.boolean true)⟩] := by
    rw [exchanges, evaluate_of_parse _ _ hp rfl]
    rfl
  obtain ⟨x, hx, hfrom⟩ := hprovenance 9 2 hresult
  refine ⟨x, hx, hfrom, hsafe "f" 7 rfl ?_ ?_⟩
  · intro field hfield
    obtain ⟨before, after, hfields, -⟩ := List.lookup_eq_some_iff.1 hfield
    have hmem : (field, Value.function 7) ∈ data.fields := by simp [hfields]
    simp [data] at hmem
  · simp [hexchanges, Value.boolean]

end Evaluator

end TemplateExpr
