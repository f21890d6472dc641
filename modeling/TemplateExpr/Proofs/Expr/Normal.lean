import TemplateExpr.Proofs.Host.Calls
import TemplateExpr.Proofs.Value.Equality

namespace TemplateExpr

variable {σ α β : Type}

theorem Run.ok_of_bind {x : Run σ α} {f : α → Run σ β} {s u : σ} {b : β}
    (h : (x >>= f) s = (.ok b, u)) : ∃ a t, x s = (.ok a, t) ∧ f a t = (.ok b, u) := by
  rw [bind_apply] at h
  rcases hx : x s with ⟨e | a, t⟩
  · rw [hx] at h
    cases h
  · rw [hx] at h
    exact ⟨a, t, rfl, h⟩

theorem Run.ok_of_liftM {m : StateM σ α} {s u : σ} {a : α}
    (h : (liftM m : Run σ α) s = (.ok a, u)) : m s = (a, u) := by
  have hpair : (Except.ok (m s).1, (m s).2) = ((.ok a : Except Fault α), u) := h
  obtain ⟨ha, hu⟩ := Prod.mk.inj hpair
  exact Prod.ext (Except.ok.inj ha) hu

namespace Expr

variable (host : Host σ) (scope : Scope)

-- What a node that is evaluated brings in: a literal, the result of a call, or a length.
structure NormalStep (p : Expr × σ) : Prop where
  literal : ∀ o l, p.1 = .literal o l → l.toValue.Normal
  returned : ∀ i v u, p.1.invocation? scope = some i →
    host.invoke i.function scope.receiver p.2 = (.ok v, u) → v.Normal
  short : ∀ v u, p.1.evaluate host scope p.2 = (.ok v, u) → v.Short

def YieldsNormal (p : Expr × σ) : Prop :=
  ∀ v u, p.1.evaluate host scope p.2 = (.ok v, u) → v.Normal

variable {host scope}

theorem ok_of_liftRuntime {r : Except RuntimeFault α} {s u : σ} {a : α}
    (h : (liftRuntime r : Run σ α) s = (.ok a, u)) : r = .ok a := by
  cases r with
  | ok b => cases h; rfl
  | error f => cases h

theorem NormalStep.callAction {e : Expr} {s u : σ} {o : Occurrence} {v : Value}
    (h : NormalStep host scope (e, s)) (ho : e.occurrence? = some o)
    (hv : Expr.callAction host scope o.name s = (.ok v, u)) : v.Normal := by
  by_cases hf : ∃ f, scope.effective o.name = .function f
  · obtain ⟨f, hf⟩ := hf
    rw [Scope.callAction_of_function host hf] at hv
    obtain ⟨r, t, hr, hv⟩ := Run.ok_of_bind hv
    cases r with
    | error reason => cases hv
    | ok w =>
        cases hv
        have hi := invocation?_eq_some (i := ⟨o, f⟩).2 ⟨ho, Scope.action?_eq_function.2 hf⟩
        exact h.returned _ v u hi (Run.ok_of_liftM hr)
  · rw [Scope.callAction_of_ne_function host fun f h => hf ⟨f, h⟩] at hv
    cases hv

theorem yieldsNormal_name {o : Nat} {n : String} {s : σ}
    (hfields : ∀ name v, scope.bindings.field? name = some v → v.Normal)
    (h : NormalStep host scope (name o n, s)) : YieldsNormal host scope (name o n, s) := by
  intro v u hv
  rw [evaluate] at hv
  cases hresolve : scope.resolve n with
  | value w =>
      rw [hresolve] at hv
      cases hv
      exact hfields n v ((Scope.resolve_eq_value.1 hresolve).2.2)
  | action w =>
      rw [hresolve] at hv
      exact h.callAction (o := ⟨o, n⟩) rfl hv
  | absent =>
      rw [hresolve] at hv
      cases hv
      trivial

theorem normal_of_read {e : Expr} {s t t' u : σ} {a v : Value} {key : String}
    (hstep : NormalStep host scope (e, s)) (he : YieldsNormal host scope (e, s))
    (ha : e.evaluate host scope s = (.ok a, t))
    (hv : (liftRuntime (a.read key) : Run σ Value) t' = (.ok v, u)) : v.Normal :=
  (he a t ha).read (hstep.short a t ha) (ok_of_liftRuntime hv)

theorem yieldsNormal_member {o : Nat} {e : Expr} {p : String} {s : σ}
    (hstep : NormalStep host scope (e, s))
    (he : YieldsNormal host scope (e, s)) : YieldsNormal host scope (member o e p, s) := by
  intro v u hv
  rw [evaluate] at hv
  obtain ⟨a, t, ha, hv⟩ := Run.ok_of_bind hv
  exact normal_of_read hstep he ha hv

theorem yieldsNormal_index {o : Nat} {e k : Expr} {s : σ} (hstep : NormalStep host scope (e, s))
    (he : YieldsNormal host scope (e, s)) : YieldsNormal host scope (index o e k, s) := by
  intro v u hv
  rw [evaluate] at hv
  obtain ⟨a, t, ha, hv⟩ := Run.ok_of_bind hv
  obtain ⟨b, t', -, hv⟩ := Run.ok_of_bind hv
  exact normal_of_read hstep he ha hv

theorem yieldsNormal_unary (o : Nat) (op : UnaryOp) (e : Expr) (s : σ) :
    YieldsNormal host scope (unary o op e, s) := by
  intro v u hv
  rw [evaluate] at hv
  obtain ⟨a, t, -, hv⟩ := Run.ok_of_bind hv
  cases hv
  exact op.normal_apply a

theorem yieldsNormal_binary (o : Nat) (op : BinaryOp) (l r : Expr) (s : σ) :
    YieldsNormal host scope (binary o op l r, s) := by
  intro v u hv
  rw [evaluate] at hv
  obtain ⟨a, t, -, hv⟩ := Run.ok_of_bind hv
  obtain ⟨b, t', -, hv⟩ := Run.ok_of_bind hv
  cases hv
  exact op.normal_apply a b

theorem yieldsNormal_ternary {o : Nat} {p yes no : Expr} {s : σ}
    (h : ∀ a t, p.evaluate host scope s = (.ok a, t) →
      YieldsNormal host scope (if a.isTruthy then yes else no, t)) :
    YieldsNormal host scope (ternary o p yes no, s) := by
  intro v u hv
  rw [evaluate] at hv
  obtain ⟨a, t, ha, hv⟩ := Run.ok_of_bind hv
  refine h a t ha v u ?_
  rw [← hv]
  by_cases htrue : a.isTruthy = true
  · rw [if_pos htrue, if_pos htrue]
  · rw [if_neg htrue, if_neg htrue]

theorem yieldsNormal_array {o : Nat} {items : List Expr} {s : σ}
    (h : ∀ vs u, evaluateItems host scope items s = (.ok vs, u) → ∀ j ∈ vs, j.Normal) :
    YieldsNormal host scope (array o items, s) := by
  intro v u hv
  rw [evaluate] at hv
  obtain ⟨vs, t, hvs, hv⟩ := Run.ok_of_bind hv
  cases hv
  exact Json.normal_array.2 (h vs u hvs)

theorem yieldsNormal_items {items : List Expr}
    (h : ∀ e ∈ items, ∀ s, (∀ p ∈ e.visits host scope s, NormalStep host scope p) →
      ∀ p ∈ e.visits host scope s, YieldsNormal host scope p) {s : σ}
    (hsteps : ∀ p ∈ itemsVisits host scope items s, NormalStep host scope p) :
    (∀ p ∈ itemsVisits host scope items s, YieldsNormal host scope p) ∧
      ∀ vs u, evaluateItems host scope items s = (.ok vs, u) → ∀ j ∈ vs, j.Normal := by
  induction items generalizing s with
  | nil =>
      refine ⟨by simp [itemsVisits], fun vs u hvs => ?_⟩
      cases hvs
      simp
  | cons e es ih =>
      obtain ⟨he, hes⟩ := List.forall_mem_cons.1 h
      rw [itemsVisits, List.forall_mem_append, Run.forall_mem_next] at hsteps
      have hhead := he s hsteps.1
      have htail := fun (v : Value) (t : σ) (hv : e.evaluate host scope s = (.ok v, t)) =>
        ih hes (hsteps.2 v t hv)
      constructor
      · rw [itemsVisits, List.forall_mem_append, Run.forall_mem_next]
        exact ⟨hhead, fun v t hv => (htail v t hv).1⟩
      · intro vs u hvs
        rw [evaluateItems] at hvs
        obtain ⟨v, t, hv, hvs⟩ := Run.ok_of_bind hvs
        obtain ⟨ws, t', hws, hvs⟩ := Run.ok_of_bind hvs
        cases hvs
        exact List.forall_mem_cons.2 ⟨(hhead _ (self_mem_visits host scope e s) v t hv).toJson,
          (htail v t hv).2 ws u hws⟩

theorem yieldsNormal_of_visits
    (hfields : ∀ name v, scope.bindings.field? name = some v → v.Normal) (x : Expr) (s : σ)
    (h : ∀ p ∈ x.visits host scope s, NormalStep host scope p) :
    ∀ p ∈ x.visits host scope s, YieldsNormal host scope p := by
  induction x generalizing s with
  | literal o l =>
      rw [visits, List.forall_mem_singleton] at h ⊢
      intro v u hv
      cases hv
      exact h.literal o l rfl
  | name o n =>
      rw [visits, List.forall_mem_singleton] at h ⊢
      exact yieldsNormal_name hfields h
  | member o e p ih =>
      rw [visits, List.forall_mem_cons] at h ⊢
      have hself := self_mem_visits host scope e s
      exact ⟨yieldsNormal_member (h.2 _ hself) (ih s h.2 _ hself), ih s h.2⟩
  | index o e k ihe ihk =>
      rw [visits, List.forall_mem_cons, List.forall_mem_append, Run.forall_mem_next] at h ⊢
      obtain ⟨-, he, hk⟩ := h
      have hself := self_mem_visits host scope e s
      exact ⟨yieldsNormal_index (he _ hself) (ihe s he _ hself), ihe s he,
        fun a t ha => ihk t (hk a t ha)⟩
  | unary o op e ih =>
      rw [visits, List.forall_mem_cons] at h ⊢
      exact ⟨yieldsNormal_unary o op e s, ih s h.2⟩
  | binary o op l r ihl ihr =>
      rw [visits, List.forall_mem_cons, List.forall_mem_append, Run.forall_mem_next] at h ⊢
      obtain ⟨-, hl, hr⟩ := h
      exact ⟨yieldsNormal_binary o op l r s, ihl s hl, fun a t ha => ihr t (hr a t ha)⟩
  | ternary o p yes no ihp ihy ihn =>
      rw [visits, List.forall_mem_cons, List.forall_mem_append, Run.forall_mem_next] at h ⊢
      obtain ⟨-, hp, hbranch⟩ := h
      have hchosen : ∀ a t, p.evaluate host scope s = (.ok a, t) →
          ∀ q ∈ (if a.isTruthy then yes else no).visits host scope t,
            YieldsNormal host scope q := by
        intro a t ha
        have hbranch := hbranch a t ha
        by_cases htrue : a.isTruthy = true
        · rw [if_pos htrue] at hbranch ⊢
          exact ihy t hbranch
        · rw [if_neg htrue] at hbranch ⊢
          exact ihn t hbranch
      refine ⟨yieldsNormal_ternary fun a t ha => hchosen a t ha _ (self_mem_visits host scope _ t),
        ihp s hp, fun a t ha => ?_⟩
      have hchosen := hchosen a t ha
      rwa [apply_ite fun e : Expr => e.visits host scope t] at hchosen
  | array o items ih =>
      rw [visits, List.forall_mem_cons] at h ⊢
      obtain ⟨hvisits, hitems⟩ := yieldsNormal_items ih h.2
      exact ⟨yieldsNormal_array hitems, hvisits⟩
  | call o n =>
      rw [visits, List.forall_mem_singleton] at h ⊢
      intro v u hv
      rw [evaluate] at hv
      exact h.callAction (o := ⟨o, n⟩) rfl hv

variable (host scope) in
structure NormalInputs (x : Expr) (s : σ) : Prop where
  fields : ∀ name v, scope.bindings.field? name = some v → v.Normal
  returned : ∀ y t, (y, t) ∈ x.visits host scope s → ∀ i v u, y.invocation? scope = some i →
    host.invoke i.function scope.receiver t = (.ok v, u) → v.Normal
  short : ∀ y t, (y, t) ∈ x.visits host scope s → ∀ v u,
    y.evaluate host scope t = (.ok v, u) → v.Short

theorem normal_of_literal? {t : Token} {l : Literal} (h : Token.literal? t = some l) :
    l.toValue.Normal := by
  cases t with
  | number x =>
      cases h
      exact Literal.normal_ofDouble x
  | text s =>
      cases h
      exact Json.normal_text s
  | word k =>
      cases h
      cases k with
      | trueWord | falseWord => exact Json.normal_boolean _
      | nullWord => exact Json.normal_null
      | undefinedWord => trivial
  | _ => cases h

theorem NormalInputs.values {limit : Nat} {source : String} {x : Expr} {s : σ}
    (hx : Expr.parse limit source = .ok x) (h : NormalInputs host scope x s) :
    ∀ p ∈ x.visits host scope s, YieldsNormal host scope p := by
  obtain ⟨ts, -, -, hliterals⟩ := leaves_of_parse hx
  refine yieldsNormal_of_visits h.fields x s fun p hp => ?_
  refine ⟨fun o l hl => ?_, h.returned p.1 p.2 hp, h.short p.1 p.2 hp⟩
  obtain ⟨t, -, ht⟩ := hliterals o l (hl ▸ mem_nodes_of_mem_visits x s p hp)
  exact normal_of_literal? ht

end Expr

theorem evaluate_normal {limit : Nat} {source : String} {x : Expr} (host : Host σ) (scope : Scope)
    (s : σ) (hx : Expr.parse limit source = .ok x) (h : x.NormalInputs host scope s) :
    (∀ y t, (y, t) ∈ x.visits host scope s → ∀ v u,
        y.evaluate host scope t = (.ok v, u) → v.Normal) ∧
      (∀ ts o l d, Token.scan source = .ok ts → .literal o l ∈ x.nodes → ⟨.number d, o⟩ ∈ ts →
        d.isFinite = false → l = .null) ∧
      (∀ (op : BinaryOp) f a b, op.onDoubles? = some f →
        (op = .add → a.isText = false ∧ b.isText = false) →
        (a.toDouble = .nan ∨ b.toDouble = .nan ∨ op = .div ∧ b.toDouble.isZero = true) →
        op.apply a b = .null) ∧
      (∀ v : Value, v.toDouble = .nan → UnaryOp.neg.apply v = .null) ∧
      ∀ a b : Value, a.Normal → b.Normal → a.Ordered → b.Ordered → a.same b = a.strictEq b := by
  refine ⟨fun y t hy => h.values hx _ hy, ?_, fun op f a b => BinaryOp.apply_eq_null,
    fun v => UnaryOp.apply_neg_eq_null, fun a b ha hb hao hbo => ha.same_eq_strictEq hb hao hbo⟩
  intro ts o l d hts hl hd hfinite
  have hlit := Expr.literal?_of_parse hx hl hts hd
  cases d with
  | finite d => cases hfinite
  | nan | infinite => cases hlit; rfl

theorem evaluate_normal_of_length :
    let scope : Scope := ⟨⟨[("a", .json (.array [.null, .text "b"]))], []⟩, .undefined, {}⟩
    ∃ x, Expr.parse 8 "a.length" = .ok x ∧ x.NormalInputs Host.isolated scope () ∧
      x.evaluate Host.isolated scope () = (.ok (.integer 2), ()) ∧ (Value.integer 2).Normal := by
  intro scope
  have hx : Expr.parse 8 "a.length" = .ok (.member 0 (.name 0 "a") "length") := by
    with_unfolding_all rfl
  have hvalue : (Expr.member 0 (.name 0 "a") "length").evaluate Host.isolated scope () =
      (.ok (.integer 2), ()) := rfl
  have hinputs : (Expr.member 0 (.name 0 "a") "length").NormalInputs Host.isolated scope () := by
    refine ⟨fun name v hv => ?_, fun y t hy i v u hi => ?_, fun y t hy v u hv => ?_⟩
    · obtain ⟨before, after, he, -⟩ := List.lookup_eq_some_iff.1 hv
      have hmem : (name, v) ∈ scope.bindings.fields := by simp [he]
      cases List.mem_singleton.1 hmem
      exact Json.normal_array.2 (by simp [Json.normal_null, Json.normal_text])
    · rcases List.mem_cons.1 hy with he | hy
      · cases he
        cases hi
      · cases List.mem_singleton.1 hy
        cases hi
    · rcases List.mem_cons.1 hy with he | hy
      · cases he
        cases hvalue.symm.trans hv
        trivial
      · cases List.mem_singleton.1 hy
        cases hv
        exact (by decide : 2 < Nat.pow 2 53)
  exact ⟨_, hx, hinputs, hvalue,
    (evaluate_normal Host.isolated scope () hx hinputs).1 _ () List.mem_cons_self _ () hvalue⟩

end TemplateExpr
