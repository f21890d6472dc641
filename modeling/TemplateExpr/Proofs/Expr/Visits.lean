import TemplateExpr.Proofs.Expr.Nodes
import TemplateExpr.Proofs.Scope.Effective

namespace TemplateExpr

variable {σ α β γ : Type}

def Run.next (r : Except Fault α × σ) (skipped : γ) (f : α → σ → γ) : γ :=
  match r with
  | (.ok a, t) => f a t
  | (.error _, _) => skipped

@[simp] theorem Run.next_ok (a : α) (t : σ) (skipped : γ) (f : α → σ → γ) :
    next (.ok a, t) skipped f = f a t := rfl

@[simp] theorem Run.next_error (e : Fault) (t : σ) (skipped : γ) (f : α → σ → γ) :
    next (.error e, t) skipped f = skipped := rfl

theorem Run.mem_next {b : β} {r : Except Fault α × σ} {f : α → σ → List β} :
    b ∈ next r [] f ↔ ∃ a t, r = (.ok a, t) ∧ b ∈ f a t := by
  rcases r with ⟨_ | a, t⟩
  · simp
  · refine ⟨fun h => ⟨a, t, rfl, h⟩, ?_⟩
    rintro ⟨_, _, h, hb⟩
    cases h
    exact hb

theorem Run.forall_mem_next {P : β → Prop} {r : Except Fault α × σ} {f : α → σ → List β} :
    (∀ b ∈ next r [] f, P b) ↔ ∀ a t, r = (.ok a, t) → ∀ b ∈ f a t, P b := by
  rcases r with ⟨_ | a, t⟩ <;> simp

theorem Run.bind_error {x : Run σ α} {f : α → Run σ β} {s u : σ} {e : Fault}
    (h : x s = (.error e, u)) : (x >>= f) s = (.error e, u) := by
  rw [bind_apply, h]

theorem Run.bind_error_of_mem {x : Run σ α} {f : α → Run σ β} {s u : σ} {e : Fault} {c : γ}
    {before : List γ} {after : α → σ → List γ} (hmem : c ∈ before ++ next (x s) [] after)
    (hx : c ∈ before → x s = (.error e, u))
    (hf : ∀ a t, c ∈ after a t → f a t = (.error e, u)) : (x >>= f) s = (.error e, u) := by
  rcases List.mem_append.1 hmem with hmem | hmem
  · exact bind_error (hx hmem)
  · obtain ⟨a, t, h, hmem⟩ := mem_next.1 hmem
    rw [bind_apply, h]
    exact hf a t hmem

namespace Expr

variable (host : Host σ) (scope : Scope)

mutual

-- The nodes that are evaluated, each with the state in which its evaluation begins.
def visits : Expr → σ → List (Expr × σ)
  | .literal o l, s => [(.literal o l, s)]
  | .name o n, s => [(.name o n, s)]
  | .member o e p, s => (.member o e p, s) :: e.visits s
  | .index o e k, s => (.index o e k, s) ::
      (e.visits s ++ Run.next (e.evaluate host scope s) [] fun _ t => k.visits t)
  | .unary o op e, s => (.unary o op e, s) :: e.visits s
  | .binary o op l r, s => (.binary o op l r, s) ::
      (l.visits s ++ Run.next (l.evaluate host scope s) [] fun _ t => r.visits t)
  | .ternary o p yes no, s => (.ternary o p yes no, s) ::
      (p.visits s ++ Run.next (p.evaluate host scope s) [] fun v t =>
        if v.isTruthy then yes.visits t else no.visits t)
  | .array o items, s => (.array o items, s) :: itemsVisits items s
  | .call o n, s => [(.call o n, s)]

def itemsVisits : List Expr → σ → List (Expr × σ)
  | [], _ => []
  | e :: es, s =>
      e.visits s ++ Run.next (e.evaluate host scope s) [] fun _ t => itemsVisits es t

end

def unreached : Expr := .literal 0 .undefined

theorem unreached_occurrences : unreached.occurrences = [] := rfl

mutual

-- The expression with nothing but a literal wherever the evaluation does not come.
def reached : Expr → σ → Expr
  | .literal o l, _ => .literal o l
  | .name o n, _ => .name o n
  | .member o e p, s => .member o (e.reached s) p
  | .index o e k, s => .index o (e.reached s)
      (Run.next (e.evaluate host scope s) unreached fun _ t => k.reached t)
  | .unary o op e, s => .unary o op (e.reached s)
  | .binary o op l r, s => .binary o op (l.reached s)
      (Run.next (l.evaluate host scope s) unreached fun _ t => r.reached t)
  | .ternary o p yes no, s => .ternary o (p.reached s)
      (Run.next (p.evaluate host scope s) unreached fun v t =>
        if v.isTruthy then yes.reached t else unreached)
      (Run.next (p.evaluate host scope s) unreached fun v t =>
        if v.isTruthy then unreached else no.reached t)
  | .array o items, s => .array o (itemsReached items s)
  | .call o n, _ => .call o n

def itemsReached : List Expr → σ → List Expr
  | [], _ => []
  | e :: es, s =>
      e.reached s :: Run.next (e.evaluate host scope s) [] fun _ t => itemsReached es t

end

variable {host : Host σ} {scope : Scope}

variable (host scope) in
theorem self_mem_visits (x : Expr) (s : σ) : (x, s) ∈ x.visits host scope s := by
  cases x <;> exact List.mem_cons_self

theorem mem_itemsNodes_of_mem_visits {items : List Expr}
    (h : ∀ e ∈ items, ∀ s, ∀ p ∈ e.visits host scope s, p.1 ∈ e.nodes) (s : σ) :
    ∀ p ∈ itemsVisits host scope items s, p.1 ∈ itemsNodes items := by
  induction items generalizing s with
  | nil => simp [itemsVisits]
  | cons e es ih =>
      obtain ⟨he, hes⟩ := List.forall_mem_cons.1 h
      rw [itemsVisits, itemsNodes, List.forall_mem_append, Run.forall_mem_next]
      exact ⟨fun p hp => List.mem_append_left _ (he s p hp),
        fun v t _ p hp => List.mem_append_right _ (ih hes t p hp)⟩

theorem mem_nodes_of_mem_visits (x : Expr) (s : σ) :
    ∀ p ∈ x.visits host scope s, p.1 ∈ x.nodes := by
  induction x generalizing s with
  | literal o l => simp [visits, nodes]
  | name o n => simp [visits, nodes]
  | member o e p ih =>
      rw [visits, nodes, List.forall_mem_cons]
      exact ⟨List.mem_cons_self, fun q hq => .tail _ (ih s q hq)⟩
  | index o e k ihe ihk =>
      rw [visits, nodes, List.forall_mem_cons, List.forall_mem_append, Run.forall_mem_next]
      exact ⟨List.mem_cons_self, fun q hq => .tail _ (List.mem_append_left _ (ihe s q hq)),
        fun v t _ q hq => .tail _ (List.mem_append_right _ (ihk t q hq))⟩
  | unary o op e ih =>
      rw [visits, nodes, List.forall_mem_cons]
      exact ⟨List.mem_cons_self, fun q hq => .tail _ (ih s q hq)⟩
  | binary o op l r ihl ihr =>
      rw [visits, nodes, List.forall_mem_cons, List.forall_mem_append, Run.forall_mem_next]
      exact ⟨List.mem_cons_self, fun q hq => .tail _ (List.mem_append_left _ (ihl s q hq)),
        fun v t _ q hq => .tail _ (List.mem_append_right _ (ihr t q hq))⟩
  | ternary o p yes no ihp ihy ihn =>
      rw [visits, nodes, List.forall_mem_cons, List.forall_mem_append, Run.forall_mem_next]
      refine ⟨List.mem_cons_self, fun q hq => .tail _ (List.mem_append_left _ (ihp s q hq)),
        fun v t _ q hq => .tail _ (List.mem_append_right _ ?_)⟩
      split at hq
      · exact List.mem_append_left _ (ihy t q hq)
      · exact List.mem_append_right _ (ihn t q hq)
  | array o items ih =>
      rw [visits, nodes, List.forall_mem_cons]
      exact ⟨List.mem_cons_self, fun q hq => .tail _ (mem_itemsNodes_of_mem_visits ih s q hq)⟩
  | call o n => simp [visits, nodes]

theorem evaluateItems_reached {items : List Expr}
    (h : ∀ e ∈ items, ∀ s, (e.reached host scope s).evaluate host scope s = e.evaluate host scope s)
    (s : σ) :
    evaluateItems host scope (itemsReached host scope items s) s = evaluateItems host scope items s := by
  induction items generalizing s with
  | nil => rfl
  | cons e es ih =>
      obtain ⟨he, hes⟩ := List.forall_mem_cons.1 h
      rw [itemsReached, evaluateItems, evaluateItems, Run.bind_apply, Run.bind_apply, he]
      rcases e.evaluate host scope s with ⟨_ | v, t⟩
      · rfl
      · simp only [Run.next_ok, Run.bind_apply, ih hes]

theorem evaluate_reached (x : Expr) (s : σ) :
    (x.reached host scope s).evaluate host scope s = x.evaluate host scope s := by
  induction x generalizing s with
  | literal o l => rfl
  | name o n => rfl
  | member o e p ih => rw [reached, evaluate, evaluate, Run.bind_apply, Run.bind_apply, ih]
  | index o e k ihe ihk =>
      rw [reached, evaluate, evaluate, Run.bind_apply, Run.bind_apply, ihe]
      rcases e.evaluate host scope s with ⟨_ | v, t⟩
      · rfl
      · simp only [Run.next_ok, Run.bind_apply, ihk]
  | unary o op e ih => rw [reached, evaluate, evaluate, Run.bind_apply, Run.bind_apply, ih]
  | binary o op l r ihl ihr =>
      rw [reached, evaluate, evaluate, Run.bind_apply, Run.bind_apply, ihl]
      rcases l.evaluate host scope s with ⟨_ | v, t⟩
      · rfl
      · simp only [Run.next_ok, Run.bind_apply, ihr]
  | ternary o p yes no ihp ihy ihn =>
      rw [reached, evaluate, evaluate, Run.bind_apply, Run.bind_apply, ihp]
      rcases p.evaluate host scope s with ⟨_ | v, t⟩
      · rfl
      · simp only [Run.next_ok]
        by_cases hv : v.isTruthy = true
        · rw [if_pos hv, if_pos hv, if_pos hv, ihy]
        · rw [if_neg hv, if_neg hv, if_neg hv, ihn]
  | array o items ih =>
      rw [reached, evaluate, evaluate, Run.bind_apply, Run.bind_apply, evaluateItems_reached ih]
  | call o n => rfl

theorem evaluateItems_of_mem_visits {items : List Expr} {y : Expr} {t u : σ} {f : Fault}
    (h : ∀ e ∈ items, ∀ s, (y, t) ∈ e.visits host scope s → e.evaluate host scope s = (.error f, u))
    {s : σ} (hmem : (y, t) ∈ itemsVisits host scope items s) :
    evaluateItems host scope items s = (.error f, u) := by
  induction items generalizing s with
  | nil => cases hmem
  | cons e es ih =>
      obtain ⟨he, hes⟩ := List.forall_mem_cons.1 h
      rw [evaluateItems]
      exact Run.bind_error_of_mem hmem (he s) fun v t' hmem => Run.bind_error (ih hes hmem)

theorem evaluate_of_mem_visits {x y : Expr} {s t u : σ} {f : Fault}
    (hmem : (y, t) ∈ x.visits host scope s) (hy : y.evaluate host scope t = (.error f, u)) :
    x.evaluate host scope s = (.error f, u) := by
  -- Either the node itself fails, or one below it does.
  have below {x : Expr} {s : σ} {vs : List (Expr × σ)} (hmem : (y, t) ∈ (x, s) :: vs)
      (h : (y, t) ∈ vs → x.evaluate host scope s = (.error f, u)) :
      x.evaluate host scope s = (.error f, u) := by
    rcases List.mem_cons.1 hmem with he | hmem
    · cases he
      exact hy
    · exact h hmem
  induction x generalizing s with
  | literal o l => exact below hmem (by simp)
  | name o n => exact below hmem (by simp)
  | member o e p ih =>
      refine below hmem fun hmem => ?_
      rw [evaluate]
      exact Run.bind_error (ih hmem)
  | index o e k ihe ihk =>
      refine below hmem fun hmem => ?_
      rw [evaluate]
      exact Run.bind_error_of_mem hmem ihe fun v t' hmem => Run.bind_error (ihk hmem)
  | unary o op e ih =>
      refine below hmem fun hmem => ?_
      rw [evaluate]
      exact Run.bind_error (ih hmem)
  | binary o op l r ihl ihr =>
      refine below hmem fun hmem => ?_
      rw [evaluate]
      exact Run.bind_error_of_mem hmem ihl fun v t' hmem => Run.bind_error (ihr hmem)
  | ternary o p yes no ihp ihy ihn =>
      refine below hmem fun hmem => ?_
      rw [evaluate]
      refine Run.bind_error_of_mem hmem ihp fun v t' hmem => ?_
      split at hmem
      · rename_i hv
        rw [if_pos hv, ihy hmem]
      · rename_i hv
        rw [if_neg hv, ihn hmem]
  | array o items ih =>
      refine below hmem fun hmem => ?_
      rw [evaluate]
      exact Run.bind_error (evaluateItems_of_mem_visits (fun e he s => ih e he) hmem)
  | call o n => exact below hmem (by simp)

theorem itemsReached_occurrences_sublist {items : List Expr}
    (h : ∀ e ∈ items, ∀ s, (e.reached host scope s).occurrences.Sublist e.occurrences) (o : Nat)
    (s : σ) :
    (array o (itemsReached host scope items s)).occurrences.Sublist (array o items).occurrences := by
  induction items generalizing s with
  | nil => exact List.Sublist.refl _
  | cons e es ih =>
      obtain ⟨he, hes⟩ := List.forall_mem_cons.1 h
      rw [itemsReached, occurrences_array_cons, occurrences_array_cons]
      refine (he s).append ?_
      rcases e.evaluate host scope s with ⟨_ | v, t⟩
      · exact List.nil_sublist _
      · exact ih hes t

theorem reached_occurrences_sublist (x : Expr) (s : σ) :
    (x.reached host scope s).occurrences.Sublist x.occurrences := by
  induction x generalizing s with
  | literal o l => exact List.Sublist.refl _
  | name o n => exact List.Sublist.refl _
  | member o e p ih => exact ih s
  | index o e k ihe ihk =>
      rw [reached, occurrences_index, occurrences_index]
      refine (ihe s).append ?_
      rcases e.evaluate host scope s with ⟨_ | v, t⟩
      · exact List.nil_sublist _
      · exact ihk t
  | unary o op e ih => exact ih s
  | binary o op l r ihl ihr =>
      rw [reached, occurrences_binary, occurrences_binary]
      refine (ihl s).append ?_
      rcases l.evaluate host scope s with ⟨_ | v, t⟩
      · exact List.nil_sublist _
      · exact ihr t
  | ternary o p yes no ihp ihy ihn =>
      rw [reached, occurrences_ternary, occurrences_ternary]
      refine (ihp s).append ?_
      rcases p.evaluate host scope s with ⟨_ | v, t⟩
      · exact List.nil_sublist _
      · simp only [Run.next_ok]
        split
        · exact (ihy t).append (List.nil_sublist _)
        · exact (List.nil_sublist _).append (ihn t)
  | array o items ih => exact itemsReached_occurrences_sublist ih o s
  | call o n => exact List.Sublist.refl _

theorem itemsVisits_occurrences {items : List Expr}
    (h : ∀ e ∈ items, ∀ s, (e.visits host scope s).filterMap (·.1.occurrence?) =
      (e.reached host scope s).occurrences) (o : Nat) (s : σ) :
    (itemsVisits host scope items s).filterMap (·.1.occurrence?) =
      (array o (itemsReached host scope items s)).occurrences := by
  induction items generalizing s with
  | nil => rfl
  | cons e es ih =>
      obtain ⟨he, hes⟩ := List.forall_mem_cons.1 h
      rw [itemsVisits, itemsReached, occurrences_array_cons, List.filterMap_append, he]
      rcases e.evaluate host scope s with ⟨_ | v, t⟩
      · rfl
      · rw [Run.next_ok, Run.next_ok, ih hes]

theorem visits_occurrences (x : Expr) (s : σ) :
    (x.visits host scope s).filterMap (·.1.occurrence?) = (x.reached host scope s).occurrences := by
  induction x generalizing s with
  | literal o l => rfl
  | name o n => rfl
  | member o e p ih => exact ih s
  | index o e k ihe ihk =>
      rw [visits, reached, occurrences_index, List.filterMap_cons_none rfl, List.filterMap_append,
        ihe]
      rcases e.evaluate host scope s with ⟨_ | v, t⟩
      · rfl
      · rw [Run.next_ok, Run.next_ok, ihk]
  | unary o op e ih => exact ih s
  | binary o op l r ihl ihr =>
      rw [visits, reached, occurrences_binary, List.filterMap_cons_none rfl, List.filterMap_append,
        ihl]
      rcases l.evaluate host scope s with ⟨_ | v, t⟩
      · rfl
      · rw [Run.next_ok, Run.next_ok, ihr]
  | ternary o p yes no ihp ihy ihn =>
      rw [visits, reached, occurrences_ternary, List.filterMap_cons_none rfl, List.filterMap_append,
        ihp]
      rcases p.evaluate host scope s with ⟨_ | v, t⟩
      · rfl
      · simp only [Run.next_ok]
        by_cases hv : v.isTruthy = true
        · rw [if_pos hv, if_pos hv, if_pos hv, ihy, unreached_occurrences, List.append_nil]
        · rw [if_neg hv, if_neg hv, if_neg hv, ihn, unreached_occurrences, List.nil_append]
  | array o items ih => exact itemsVisits_occurrences ih o s
  | call o n => rfl

end Expr

end TemplateExpr
