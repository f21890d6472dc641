import TemplateExpr.Proofs.Host.Closure
import TemplateExpr.Proofs.Host.Recording

namespace TemplateExpr

variable {σ α : Type}

structure Call where
  function : Handle
  receiver : Value

def Call.event (c : Call) : Event :=
  .invocation c.function c.receiver

structure Evaluation where
  source : String
  events : List Event
  result : Except Fault Value

structure Evaluation.FailsClosed (limit : Nat) (v : Evaluation) (answer : Value)
    (calls : List Call) : Prop where
  events : v.events = .scope answer :: calls.map Call.event
  exposed : answer ≠ .json (.object []) →
    calls = [] ∧ ∃ f, v.result = .error (.isolation f)
  malformed : answer = .json (.object []) → ∀ m, Expr.parse limit v.source = .error m →
    calls = [] ∧ v.result = .error (.malformed m)
  runtime : answer = .json (.object []) → ∀ e, Expr.parse limit v.source = .ok e →
    ∀ f, v.result = .error f → ∃ r, f = .runtime r

theorem Value.isolation_eq_ok {v : Value} : v.isolation = .ok () ↔ v = .json (.object []) := by
  unfold isolation
  split <;> simp_all

-- A run that only calls functions, in the same way whatever is on record, and fails at run time only.
def OnlyCalls (x : Run (σ × List Event) α) (y : Run σ α) : Prop :=
  ∀ s, ∃ calls : List Call,
    (∀ log, x (s, log) = ((y s).1, (y s).2, log ++ calls.map Call.event)) ∧
      ∀ f, (y s).1 = .error f → ∃ r, f = .runtime r

theorem OnlyCalls.congruence : Run.Congruence fun {_} => OnlyCalls (σ := σ) where
  pure := fun a s => ⟨[], fun log => by simp, by simp⟩
  fault := fun f s => ⟨[], fun log => by simp, by simp⟩
  bind := by
    intro α β x y f g h hf s
    obtain ⟨calls, hx, herror⟩ := h s
    simp only [Run.bind_apply, hx]
    rcases hy : y s with ⟨e | a, t⟩
    · refine ⟨calls, fun log => rfl, fun f hf => herror f ?_⟩
      cases hf
      rw [hy]
    · obtain ⟨calls', hf, herror'⟩ := hf a t
      refine ⟨calls ++ calls', fun log => ?_, herror'⟩
      simp only [hf, List.map_append, List.append_assoc]

theorem OnlyCalls.invoke (host : Host σ) (f : Handle) (receiver : Value) :
    OnlyCalls (σ := σ) (α := Except String Value) (liftM (host.recording.invoke f receiver))
      (liftM (host.invoke f receiver)) := by
  intro s
  refine ⟨[⟨f, receiver⟩], fun log => rfl, fun e he => ?_⟩
  cases he

theorem OnlyCalls.evaluate (host : Host σ) (scope : Scope) (e : Expr) :
    OnlyCalls (e.evaluate host.recording scope) (e.evaluate host scope) :=
  congruence.evaluate (fun _ f _ => invoke host f scope.receiver) e

namespace Evaluator

variable (e : Evaluator) (host : Host σ) (source : String) (data : Bindings) (receiver : Value)

theorem evaluate_apply (s : σ) :
    e.evaluate host source data receiver s = match (host.isolatedScope s).1.isolation with
      | .error f => (.error (.isolation f), (host.isolatedScope s).2)
      | .ok _ => match Expr.parse e.maxDepth source with
        | .error m => (.error (.malformed m), (host.isolatedScope s).2)
        | .ok x => x.evaluate host ⟨data, receiver, e.deny⟩ (host.isolatedScope s).2 := by
  have hlift : (liftM host.isolatedScope : Run σ Value) s =
      (.ok (host.isolatedScope s).1, (host.isolatedScope s).2) := rfl
  simp only [evaluate, Host.ensureIsolated, parse, Run.bind_apply, hlift]
  cases (host.isolatedScope s).1.isolation with
  | error f => rfl
  | ok u => cases Expr.parse e.maxDepth source <;> rfl

variable {e host source} in
theorem evaluate_of_parse {x : Expr} {s : σ} (hx : Expr.parse e.maxDepth source = .ok x)
    (hs : (host.isolatedScope s).1 = .json (.object [])) :
    e.evaluate host source data receiver s =
      x.evaluate host ⟨data, receiver, e.deny⟩ (host.isolatedScope s).2 := by
  rw [evaluate_apply, hs, hx]
  rfl

theorem evaluate_failsClosed (s : σ) :
    ∃ calls : List Call,
      (∀ log, e.evaluate host.recording source data receiver (s, log) =
        ((e.evaluate host source data receiver s).1, (e.evaluate host source data receiver s).2,
          log ++ .scope (host.isolatedScope s).1 :: calls.map Call.event)) ∧
      Evaluation.FailsClosed e.maxDepth
        ⟨source, .scope (host.isolatedScope s).1 :: calls.map Call.event,
          (e.evaluate host source data receiver s).1⟩ (host.isolatedScope s).1 calls := by
  have hscope : ∀ log, host.recording.isolatedScope (s, log) =
      ((host.isolatedScope s).1, (host.isolatedScope s).2,
        log ++ [.scope (host.isolatedScope s).1]) := fun log => rfl
  simp only [evaluate_apply, hscope]
  rcases host.isolatedScope s with ⟨answer, t⟩
  cases hanswer : answer.isolation with
  | error f =>
      have hne : answer ≠ .json (.object []) := by
        intro h
        rw [Value.isolation_eq_ok.2 h] at hanswer
        cases hanswer
      exact ⟨[], fun log => rfl, rfl, fun _ => ⟨rfl, f, rfl⟩, fun h => absurd h hne,
        fun h => absurd h hne⟩
  | ok u =>
      have heq : answer = .json (.object []) := Value.isolation_eq_ok.1 hanswer
      cases hparse : Expr.parse e.maxDepth source with
      | error m =>
          refine ⟨[], fun log => rfl, rfl, fun h => absurd heq h, fun _ m' hm' => ?_,
            fun _ x hx => ?_⟩
          · cases hparse.symm.trans hm'
            exact ⟨rfl, rfl⟩
          · cases hparse.symm.trans hx
      | ok x =>
          obtain ⟨calls, hrun, herror⟩ := OnlyCalls.evaluate host ⟨data, receiver, e.deny⟩ x t
          refine ⟨calls, fun log => ?_, rfl, fun h => absurd heq h, fun _ m' hm' => ?_,
            fun _ _ _ => herror⟩
          · simp only [hrun, List.append_assoc, List.singleton_append]
          · cases hparse.symm.trans hm'

theorem events_failsClosed (s : σ) :
    ∃ calls : List Call, Evaluation.FailsClosed e.maxDepth
      ⟨source, e.events host source data receiver s, (e.evaluate host source data receiver s).1⟩
      (host.isolatedScope s).1 calls := by
  obtain ⟨calls, hrun, hclosed⟩ := e.evaluate_failsClosed host source data receiver s
  refine ⟨calls, ?_⟩
  rwa [events, hrun]

theorem recording_apply (s : σ) (log : List Event) :
    e.evaluate host.recording source data receiver (s, log) =
      ((e.evaluate host source data receiver s).1, (e.evaluate host source data receiver s).2,
        log ++ e.events host source data receiver s) := by
  obtain ⟨calls, hrun, -⟩ := e.evaluate_failsClosed host source data receiver s
  rw [events, hrun, hrun, List.nil_append]

end Evaluator

end TemplateExpr
