import TemplateExpr.Proofs.Expr.Visits
import TemplateExpr.Proofs.Host.Check

namespace TemplateExpr

variable {σ α β γ : Type}

structure Invocation where
  occurrence : Occurrence
  function : Handle

def Invocation.event (receiver : Value) (i : Invocation) : Event :=
  .invocation i.function receiver

def Records (x : Run (σ × List Event) α) (s : σ × List Event) (events : List Event) : Prop :=
  (x s).2.2 = s.2 ++ events

namespace Records

variable {x : Run (σ × List Event) α} {s : σ × List Event} {events : List Event}

theorem pure (a : α) (s : σ × List Event) :
    Records (pure a : Run (σ × List Event) α) s [] := by
  simp [Records]

theorem fault (f : Fault) (s : σ × List Event) :
    Records (throw f : Run (σ × List Event) α) s [] := by
  simp [Records]

theorem bind {f : α → Run (σ × List Event) β} {after : α → σ × List Event → List Event}
    (hx : Records x s events) (hf : ∀ a t, Records (f a) t (after a t)) :
    Records (x >>= f) s (events ++ Run.next (x s) [] after) := by
  unfold Records at hx
  rw [Records, Run.bind_apply]
  rcases hr : x s with ⟨_ | a, t⟩
  · simpa [hr] using hx
  · have ht : t.2 = s.2 ++ events := by simpa [hr] using hx
    have ha : (f a t).2.2 = t.2 ++ after a t := hf a t
    simpa [ht] using ha

theorem bind_of_silent {f : α → Run (σ × List Event) β} (hx : Records x s events)
    (hf : ∀ a t, Records (f a) t []) : Records (x >>= f) s events := by
  have h := bind hx hf
  rcases hr : x s with ⟨_ | a, t⟩
  · simpa [hr] using h
  · simpa [hr] using h

theorem liftRuntime (r : Except RuntimeFault α) (s : σ × List Event) :
    Records (Expr.liftRuntime r) s [] := by
  cases r with
  | ok a => exact pure a s
  | error f => exact fault (.runtime f) s

theorem invoke (host : Host σ) (f : Handle) (receiver : Value) (s : σ × List Event) :
    Records (liftM (host.recording.invoke f receiver) : Run (σ × List Event) (Except String Value)) s
      [.invocation f receiver] := rfl

end Records

namespace Expr

def invocation? (scope : Scope) (e : Expr) : Option Invocation :=
  e.occurrence?.bind fun o => match scope.action? o.name with
    | some (.function f) => some ⟨o, f⟩
    | _ => none

variable {host : Host σ} {scope : Scope} {e : Expr} {i : Invocation}

theorem invocation?_eq_some :
    e.invocation? scope = some i ↔ e.occurrence? = some i.occurrence ∧
      scope.action? i.occurrence.name = some (.function i.function) := by
  unfold invocation?
  cases e.occurrence? with
  | none => simp
  | some o =>
      simp only [Option.bind_some, Option.some.injEq]
      constructor
      · intro h
        split at h
        · rename_i f hf
          cases h
          exact ⟨rfl, hf⟩
        · cases h
      · rintro ⟨rfl, hf⟩
        rw [hf]

theorem evaluate_of_invocation? (h : e.invocation? scope = some i) :
    e.evaluate host scope = (do
      match ← host.invoke i.function scope.receiver with
      | .ok v => pure v
      | .error reason => throw (.runtime (.actionFailed i.occurrence.name reason))) := by
  obtain ⟨occurrence, f⟩ := i
  obtain ⟨ho, hf⟩ := invocation?_eq_some.1 h
  have heffective := Scope.action?_eq_function.1 hf
  have hcall := Scope.callAction_of_function host heffective
  cases e with
  | name o n =>
      cases ho
      rw [Scope.evaluate_name, heffective]
      exact hcall
  | call o n =>
      cases ho
      rw [evaluate]
      exact hcall
  | _ => cases ho

variable (host) in
theorem evaluate_of_invocation?_eq_none {o : Occurrence} (ho : e.occurrence? = some o)
    (h : e.invocation? scope = none) : ∃ r, ∀ s, e.evaluate host scope s = (r, s) := by
  have hne : ∀ f, scope.effective o.name ≠ .function f := by
    intro f hf
    have hsome := invocation?_eq_some (i := ⟨o, f⟩).2 ⟨ho, Scope.action?_eq_function.2 hf⟩
    rw [h] at hsome
    cases hsome
  have hcall := Scope.callAction_of_ne_function host hne
  cases e with
  | name o n =>
      cases ho
      rw [Scope.evaluate_name]
      split
      · exact ⟨_, fun s => rfl⟩
      · exact ⟨_, fun s => rfl⟩
      · exact ⟨_, fun s => by rw [hcall]; rfl⟩
  | call o n =>
      cases ho
      rw [evaluate, hcall]
      exact ⟨_, fun s => rfl⟩
  | _ => cases ho

variable (host scope) in
theorem records_occurrence {o : Occurrence} (ho : e.occurrence? = some o)
    (s : σ × List Event) :
    Records (e.evaluate host.recording scope) s
      ((e.invocation? scope).map (Invocation.event scope.receiver)).toList := by
  cases h : e.invocation? scope with
  | none =>
      obtain ⟨r, hr⟩ := evaluate_of_invocation?_eq_none host.recording ho h
      simp [Records, hr]
  | some i =>
      rw [evaluate_of_invocation? h]
      refine (Records.invoke host i.function scope.receiver s).bind_of_silent fun r t => ?_
      cases r with
      | ok v => exact Records.pure v t
      | error reason => exact Records.fault _ t

def invocations (scope : Scope) (visits : List (Expr × σ)) : List Invocation :=
  visits.filterMap fun v => v.1.invocation? scope

def recorded (scope : Scope) (visits : List (Expr × σ)) : List Event :=
  (invocations scope visits).map (Invocation.event scope.receiver)

theorem recorded_append (scope : Scope) (vs ws : List (Expr × σ)) :
    recorded scope (vs ++ ws) = recorded scope vs ++ recorded scope ws := by
  rw [recorded, invocations, List.filterMap_append, List.map_append]
  rfl

theorem recorded_cons {e : Expr} (he : e.occurrence? = none) (s : σ) (vs : List (Expr × σ)) :
    recorded scope ((e, s) :: vs) = recorded scope vs := by
  have hnone : e.invocation? scope = none := by simp [invocation?, he]
  simp [recorded, invocations, hnone]

theorem recorded_next {r : Except Fault α × σ} {f : α → σ → List (Expr × σ)} :
    recorded scope (Run.next r [] f) = Run.next r [] fun a t => recorded scope (f a t) := by
  rcases r with ⟨_ | a, t⟩ <;> rfl

theorem recordsItems {items : List Expr}
    (h : ∀ e ∈ items, ∀ s, Records (e.evaluate host.recording scope) s
      (recorded scope (e.visits host.recording scope s))) (s : σ × List Event) :
    Records (evaluateItems host.recording scope items) s
      (recorded scope (itemsVisits host.recording scope items s)) := by
  induction items generalizing s with
  | nil => exact Records.pure [] s
  | cons e es ih =>
      obtain ⟨he, hes⟩ := List.forall_mem_cons.1 h
      rw [itemsVisits, recorded_append, recorded_next, evaluateItems]
      exact (he s).bind fun v t => (ih hes t).bind_of_silent fun vs t' => Records.pure _ t'

theorem records_evaluate (x : Expr) (s : σ × List Event) :
    Records (x.evaluate host.recording scope) s
      (recorded scope (x.visits host.recording scope s)) := by
  induction x generalizing s with
  | literal o l => exact Records.pure l.toValue s
  | name o n =>
      have h := records_occurrence host scope (e := name o n) rfl s
      rw [visits, recorded, invocations]
      cases hi : (name o n).invocation? scope <;> simpa [hi] using h
  | member o e p ih =>
      rw [visits, recorded_cons rfl, evaluate]
      exact (ih s).bind_of_silent fun v t => Records.liftRuntime _ t
  | index o e k ihe ihk =>
      rw [visits, recorded_cons rfl, recorded_append, recorded_next, evaluate]
      exact (ihe s).bind fun v t => (ihk t).bind_of_silent fun k t' => Records.liftRuntime _ t'
  | unary o op e ih =>
      rw [visits, recorded_cons rfl, evaluate]
      exact (ih s).bind_of_silent fun v t => Records.pure _ t
  | binary o op l r ihl ihr =>
      rw [visits, recorded_cons rfl, recorded_append, recorded_next, evaluate]
      exact (ihl s).bind fun a t => (ihr t).bind_of_silent fun b t' => Records.pure _ t'
  | ternary o p yes no ihp ihy ihn =>
      rw [visits, recorded_cons rfl, recorded_append, recorded_next, evaluate]
      refine (ihp s).bind fun v t => ?_
      split
      · exact ihy t
      · exact ihn t
  | array o items ih =>
      rw [visits, recorded_cons rfl, evaluate]
      exact (recordsItems ih s).bind_of_silent fun vs t => Records.pure _ t
  | call o n =>
      have h := records_occurrence host scope (e := call o n) rfl s
      rw [visits, recorded, invocations]
      cases hi : (call o n).invocation? scope <;> simpa [hi] using h

theorem invocations_occurrences_sublist (scope : Scope) (visits : List (Expr × σ)) :
    ((invocations scope visits).map Invocation.occurrence).Sublist
      (visits.filterMap (·.1.occurrence?)) := by
  induction visits with
  | nil => exact List.Sublist.refl _
  | cons v vs ih =>
      cases hi : v.1.invocation? scope with
      | none =>
          simp only [invocations, List.filterMap_cons_none, hi]
          exact ih.trans (List.Sublist.filterMap _ (List.sublist_cons_self v vs))
      | some i =>
          have ho := (invocation?_eq_some.1 hi).1
          simp only [invocations, List.filterMap_cons, hi, ho, List.map_cons]
          exact ih.cons_cons i.occurrence

variable (host scope) in
structure Disciplined (x : Expr) (start : σ × List Event) (calls : List Invocation) : Prop where
  record : (x.evaluate host.recording scope start).2.2 =
    start.2 ++ calls.map (Invocation.event scope.receiver)
  bound : ∀ i ∈ calls, scope.deny.contains i.occurrence.name = false ∧
    scope.bindings.action? i.occurrence.name = some (.function i.function)
  called : (calls.map Invocation.occurrence).Sublist
    (x.reached host.recording scope start).occurrences
  reached : (x.reached host.recording scope start).occurrences.Sublist x.occurrences
  unreached : (x.reached host.recording scope start).evaluate host.recording scope start =
    x.evaluate host.recording scope start
  halts : ∀ y t f u, (y, t) ∈ x.visits host.recording scope start →
    y.evaluate host.recording scope t = (.error f, u) →
      x.evaluate host.recording scope start = (.error f, u)

variable (host scope) in
theorem disciplined (x : Expr) (start : σ × List Event) :
    x.Disciplined host scope start
      (invocations scope (x.visits host.recording scope start)) where
  record := records_evaluate x start
  bound := by
    intro i hi
    obtain ⟨v, -, hv⟩ := List.mem_filterMap.1 hi
    exact Scope.action?_eq_some.1 (invocation?_eq_some.1 hv).2
  called := by
    rw [← visits_occurrences]
    exact invocations_occurrences_sublist scope _
  reached := reached_occurrences_sublist x start
  unreached := evaluate_reached x start
  halts := fun y t f u hmem hy => evaluate_of_mem_visits hmem hy

end Expr

theorem Evaluator.events_of_parse (e : Evaluator) (host : Host σ) {source : String} {x : Expr}
    (h : Expr.parse e.maxDepth source = .ok x) (data : Bindings) (receiver : Value) (s : σ) :
    e.events host source data receiver s = match (host.isolatedScope s).1.isolation with
      | .error _ => [.scope (host.isolatedScope s).1]
      | .ok _ => (x.evaluate host.recording ⟨data, receiver, e.deny⟩
          ((host.isolatedScope s).2, [.scope (host.isolatedScope s).1])).2.2 := by
  have hscope : host.recording.isolatedScope (s, []) =
      ((host.isolatedScope s).1, (host.isolatedScope s).2, [.scope (host.isolatedScope s).1]) := rfl
  rw [events, evaluate_apply, h, hscope]
  cases (host.isolatedScope s).1.isolation <;> rfl

theorem Evaluator.evaluate_disciplined (e : Evaluator) (host : Host σ) {source : String} {x : Expr}
    (h : Expr.parse e.maxDepth source = .ok x) (data : Bindings) (receiver : Value) (s : σ) :
    x.occurrences.Pairwise (·.offset < ·.offset) ∧
      ∃ calls : List Invocation,
        e.events host source data receiver s =
            .scope (host.isolatedScope s).1 :: calls.map (Invocation.event receiver) ∧
          ((host.isolatedScope s).1 = .json (.object []) →
            x.Disciplined host ⟨data, receiver, e.deny⟩
              ((host.isolatedScope s).2, [.scope (host.isolatedScope s).1]) calls) ∧
          ((host.isolatedScope s).1 ≠ .json (.object []) → calls = []) ∧
          ∀ f r, .invocation f r ∈ e.events host source data receiver s →
            r = receiver ∧ ∃ name, e.deny.contains name = false ∧
              data.action? name = some (.function f) := by
  refine ⟨Expr.occurrences_increase h, ?_⟩
  have hrun := e.events_of_parse host h data receiver s
  cases hanswer : (host.isolatedScope s).1.isolation with
  | error f =>
      rw [hanswer] at hrun
      have hne : (host.isolatedScope s).1 ≠ .json (.object []) := by
        intro heq
        rw [Value.isolation_eq_ok.2 heq] at hanswer
        cases hanswer
      exact ⟨[], hrun, fun heq => absurd heq hne, fun _ => rfl, by simp [hrun]⟩
  | ok u =>
      rw [hanswer] at hrun
      have heq := Value.isolation_eq_ok.1 hanswer
      have hd := Expr.disciplined host ⟨data, receiver, e.deny⟩ x
        ((host.isolatedScope s).2, [.scope (host.isolatedScope s).1])
      refine ⟨_, hrun.trans hd.record, fun _ => hd, fun hne => absurd heq hne, ?_⟩
      intro f r hmem
      rw [hrun, hd.record] at hmem
      simp only [List.cons_append, List.nil_append, List.mem_cons, reduceCtorEq, false_or,
        List.mem_map] at hmem
      obtain ⟨i, hi, hevent⟩ := hmem
      cases hevent
      exact ⟨rfl, i.occurrence.name, hd.bound i hi⟩

theorem Evaluator.evaluate_disciplined_of_ternary :
    let host : Host Nat := ⟨pure (.json (.object [])), fun _ _ n => (.ok (.integer n), n + 1)⟩
    let data : Bindings := ⟨[("a", .function 5)], [("b", .function 9), ("f", .function 7)]⟩
    ∃ x, Expr.parse 8 "f() ? a : b" = .ok x ∧ ∃ calls : List Invocation,
      (⟨{}, 8⟩ : Evaluator).events host "f() ? a : b" data .null 1 =
          .scope (.json (.object [])) :: calls.map (Invocation.event .null) ∧
        x.Disciplined host ⟨data, .null, {}⟩ (1, [.scope (.json (.object []))]) calls := by
  intro host data
  have hp : Expr.parse 8 "f() ? a : b" =
      .ok (.ternary 0 (.call 0 "f") (.name 6 "a") (.name 10 "b")) := by with_unfolding_all rfl
  obtain ⟨-, calls, hevents, hd, -⟩ := evaluate_disciplined ⟨{}, 8⟩ host hp data .null 1
  exact ⟨_, hp, calls, hevents, hd rfl⟩

end TemplateExpr
