import Mathlib.Algebra.BigOperators.Group.List.Basic
import TemplateExpr.Proofs.Template.Sources

namespace TemplateExpr

variable {σ : Type}

def Event.isScope : Event → Bool
  | .scope _ => true
  | .invocation _ _ => false

namespace Evaluator

variable (e : Evaluator) (host : Host σ) (data : Bindings) (receiver : Value)

def evaluations : List String → σ → List Evaluation
  | [], _ => []
  | source :: sources, s =>
      let run := e.evaluate host source data receiver s
      ⟨source, e.events host source data receiver s, run.1⟩ ::
        match run.1 with
        | .ok _ => evaluations sources run.2
        | .error _ => []

variable {e host data receiver}

theorem evaluations_cons_of_ok {source : String} {s t : σ} {x : Value}
    (h : e.evaluate host source data receiver s = (.ok x, t)) (sources : List String) :
    e.evaluations host data receiver (source :: sources) s =
      ⟨source, e.events host source data receiver s, .ok x⟩ ::
        e.evaluations host data receiver sources t := by
  simp only [evaluations, h]

theorem evaluations_cons_of_error {source : String} {s t : σ} {f : Fault}
    (h : e.evaluate host source data receiver s = (.error f, t)) (sources : List String) :
    e.evaluations host data receiver (source :: sources) s =
      [⟨source, e.events host source data receiver s, .error f⟩] := by
  simp only [evaluations, h]

variable (e host data receiver)

theorem failsClosed_of_mem_evaluations (sources : List String) (s : σ) :
    ∀ v ∈ e.evaluations host data receiver sources s,
      ∃ answer calls, v.FailsClosed e.maxDepth answer calls := by
  induction sources generalizing s with
  | nil => simp [evaluations]
  | cons source sources ih =>
      have hclosed := e.events_failsClosed host source data receiver s
      rcases hrun : e.evaluate host source data receiver s with ⟨f | x, t⟩
      · rw [hrun] at hclosed
        rw [evaluations_cons_of_error hrun]
        simpa using ⟨_, hclosed⟩
      · rw [hrun] at hclosed
        rw [evaluations_cons_of_ok hrun]
        exact List.forall_mem_cons.2 ⟨⟨_, hclosed⟩, ih t⟩

theorem ok_of_mem_dropLast_evaluations (sources : List String) (s : σ) :
    ∀ v ∈ (e.evaluations host data receiver sources s).dropLast, ∃ x, v.result = .ok x := by
  induction sources generalizing s with
  | nil => simp [evaluations]
  | cons source sources ih =>
      rcases hrun : e.evaluate host source data receiver s with ⟨f | x, t⟩
      · rw [evaluations_cons_of_error hrun]
        simp
      · rw [evaluations_cons_of_ok hrun]
        intro v hv
        cases hrest : e.evaluations host data receiver sources t with
        | nil => simp [hrest] at hv
        | cons w rest =>
            rw [hrest, List.dropLast_cons_cons] at hv
            rcases List.mem_cons.1 hv with rfl | hv
            · exact ⟨x, rfl⟩
            · exact ih t v (by rwa [hrest])

theorem exists_sources_eq (sources : List String) (s : σ) :
    ∃ rest, sources = (e.evaluations host data receiver sources s).map (·.source) ++ rest ∧
      (rest ≠ [] → ∃ v ∈ e.evaluations host data receiver sources s,
        ∃ f, v.result = .error f) := by
  induction sources generalizing s with
  | nil => exact ⟨[], rfl, fun h => absurd rfl h⟩
  | cons source sources ih =>
      rcases hrun : e.evaluate host source data receiver s with ⟨f | x, t⟩
      · rw [evaluations_cons_of_error hrun]
        exact ⟨sources, rfl, fun _ => ⟨_, List.mem_singleton_self _, f, rfl⟩⟩
      · rw [evaluations_cons_of_ok hrun]
        obtain ⟨rest, hrest, herror⟩ := ih t
        refine ⟨rest, ?_, fun hne => ?_⟩
        · rw [List.map_cons, List.cons_append, ← hrest]
        · obtain ⟨v, hv, hf⟩ := herror hne
          exact ⟨v, List.mem_cons_of_mem _ hv, hf⟩

variable {e host data receiver}

theorem forM_evaluate_eq_error {sources : List String} {s : σ} {f : Fault} :
    ((forM sources fun source => do
        let _ ← e.evaluate host source data receiver
        pure () : Run σ Unit) s).1 = .error f ↔
      ∃ v ∈ e.evaluations host data receiver sources s, v.result = .error f := by
  induction sources generalizing s with
  | nil => simp [evaluations]
  | cons source sources ih =>
      rw [List.forM_cons, Run.bind_apply, Run.map_apply]
      rcases hrun : e.evaluate host source data receiver s with ⟨f' | x, t⟩
      · rw [evaluations_cons_of_error hrun]
        simp [Except.map]
      · rw [evaluations_cons_of_ok hrun]
        simpa [Except.map] using ih

theorem forM_recording_events {sources : List String} {s : σ} (log : List Event) :
    ((forM sources fun source => do
        let _ ← e.evaluate host.recording source data receiver
        pure () : Run (σ × List Event) Unit) (s, log)).2.2 =
      log ++ (e.evaluations host data receiver sources s).flatMap (·.events) := by
  induction sources generalizing s log with
  | nil => simp [evaluations]
  | cons source sources ih =>
      rw [List.forM_cons, Run.bind_apply, Run.map_apply, e.recording_apply]
      rcases hrun : e.evaluate host source data receiver s with ⟨f | x, t⟩
      · rw [evaluations_cons_of_error hrun]
        simp [Except.map]
      · rw [evaluations_cons_of_ok hrun]
        simp only [Except.map, ih, List.flatMap_cons, List.append_assoc]

end Evaluator

theorem Evaluation.FailsClosed.countP_isScope {limit : Nat} {v : Evaluation} {answer : Value}
    {calls : List Call} (h : v.FailsClosed limit answer calls) :
    v.events.countP Event.isScope = 1 := by
  have hcalls : (calls.map Call.event).countP Event.isScope = 0 := by
    rw [List.countP_eq_zero]
    intro event hevent
    obtain ⟨c, -, rfl⟩ := List.mem_map.1 hevent
    simp [Call.event, Event.isScope]
  rw [h.events, List.countP_cons_of_pos rfl, hcalls]

namespace Engine

def events (e : Engine) (host : Host σ) (t : Template) (data : Bindings) (receiver : Value)
    (s : σ) : List Event :=
  (e.execute host.recording t data receiver (s, [])).2.2

def evaluations (e : Engine) (host : Host σ) (t : Template) (data : Bindings) (receiver : Value)
    (s : σ) : List Evaluation :=
  e.evaluator.evaluations host data receiver (e.sources t) s

section

variable (e : Engine) (host : Host σ) (t : Template) (data : Bindings) (receiver : Value) (s : σ)

theorem events_eq_evaluations :
    e.events host t data receiver s =
      (e.evaluations host t data receiver s).flatMap (·.events) := by
  have h := congrFun (Run.Traverses.execute e host.recording t data receiver) (s, [])
  rw [Run.map_apply] at h
  have hevents := congrArg (fun run => run.2.2) h
  rwa [Evaluator.forM_recording_events, List.nil_append] at hevents

theorem execute_eq_error {f : Fault} :
    (e.execute host t data receiver s).1 = .error f ↔
      ∃ v ∈ e.evaluations host t data receiver s, v.result = .error f := by
  have h := congrFun (Run.Traverses.execute e host t data receiver) s
  rw [Run.map_apply] at h
  rw [evaluations, ← Evaluator.forM_evaluate_eq_error, ← h]
  cases (e.execute host t data receiver s).1 <;> simp [Except.map]

theorem countP_isScope_events :
    (e.events host t data receiver s).countP Event.isScope =
      (e.evaluations host t data receiver s).length := by
  have hone : ∀ v ∈ e.evaluations host t data receiver s,
      (List.countP Event.isScope ∘ (·.events)) v = 1 := by
    intro v hv
    obtain ⟨answer, calls, h⟩ :=
      e.evaluator.failsClosed_of_mem_evaluations host data receiver (e.sources t) s v hv
    exact h.countP_isScope
  rw [events_eq_evaluations, List.countP_flatMap, List.map_congr_left hone]
  simp

end

theorem execute_fails_closed (e : Engine) (host : Host σ) (t : Template) (data : Bindings)
    (receiver : Value) (s : σ) :
    (∃! sources, e.Evaluates t sources) ∧ ∀ sources, e.Evaluates t sources →
      let evaluations := e.evaluator.evaluations host data receiver sources s
      (e.delimiters.Tight → ∀ segments : List Segments,
        List.Forall₂ (fun text s => e.delimiters.Decomposes text.toList s) t.texts segments →
          sources = segments.flatMap Segments.sources) ∧
      e.events host t data receiver s = evaluations.flatMap (·.events) ∧
      (∀ v ∈ evaluations, ∃ answer calls, v.FailsClosed e.evaluator.maxDepth answer calls) ∧
      (∀ v ∈ evaluations.dropLast, ∃ x, v.result = .ok x) ∧
      (∀ f, (e.execute host t data receiver s).1 = .error f ↔
        ∃ v ∈ evaluations, v.result = .error f) ∧
      (∃ rest, sources = evaluations.map (·.source) ++ rest ∧
        (rest ≠ [] → ∃ f, (e.execute host t data receiver s).1 = .error f)) ∧
      (e.events host t data receiver s).countP Event.isScope = evaluations.length ∧
      ((∀ text ∈ t.texts, ∀ a m b, m ≠ [] →
          text.toList ≠ a ++ e.delimiters.opening ++ m ++ e.delimiters.closing ++ b) →
        e.events host t data receiver s = []) := by
  refine ⟨e.existsUnique_evaluates t, fun sources hsources => ?_⟩
  obtain rfl := evaluates_iff.1 hsources
  have hevents := e.events_eq_evaluations host t data receiver s
  have herror := fun f => e.execute_eq_error host t data receiver s (f := f)
  have hclosed := e.evaluator.failsClosed_of_mem_evaluations host data receiver (e.sources t) s
  have hok := e.evaluator.ok_of_mem_dropLast_evaluations host data receiver (e.sources t) s
  refine ⟨fun ht segments hsegments => ?_, hevents, hclosed, hok, herror, ?_, ?_, ?_⟩
  · exact (evaluates_iff.1 (evaluates_of_decomposes ht hsegments)).symm
  · obtain ⟨rest, hrest, hfails⟩ :=
      e.evaluator.exists_sources_eq host data receiver (e.sources t) s
    refine ⟨rest, hrest, fun hne => ?_⟩
    obtain ⟨v, hv, f, hf⟩ := hfails hne
    exact ⟨f, (herror f).2 ⟨v, hv, hf⟩⟩
  · exact e.countP_isScope_events host t data receiver s
  · intro hfree
    have hnil : e.sources t = [] :=
      List.flatMap_eq_nil_iff.2 fun text htext => Delimiters.sources_eq_nil (hfree text htext)
    rw [hevents, evaluations, hnil]
    rfl

-- The second placeholder cannot be read and is checked all the same.
theorem execute_fails_closed_of_two :
    let t : Template := .single "\x7b\x7ba\x7d\x7d \x7b\x7b+\x7d\x7d"
    ({} : Engine).Evaluates t ["a", "+"] ∧
      (({} : Engine).events Host.isolated t {} .undefined ()).countP Event.isScope = 2 ∧
      ∃ f, (({} : Engine).execute Host.isolated t {} .undefined ()).1 = .error f := by
  intro t
  have htight : ({} : Engine).delimiters.Tight :=
    ⟨⟨'\x7b', ['\x7b'], rfl, by decide⟩, ⟨['\x7d'], '\x7d', rfl, by decide⟩⟩
  have hsegments : ({} : Engine).delimiters.Decomposes "\x7b\x7ba\x7d\x7d \x7b\x7b+\x7d\x7d".toList
      ⟨[([], ['a']), ([' '], ['+'])], []⟩ := by
    have hseg : ({} : Engine).delimiters.segments "\x7b\x7ba\x7d\x7d \x7b\x7b+\x7d\x7d".toList =
        ⟨[([], ['a']), ([' '], ['+'])], []⟩ := by with_unfolding_all rfl
    rw [← hseg]
    exact Delimiters.decomposes_segments _ _
  have hsources : ({} : Engine).Evaluates t ["a", "+"] :=
    evaluates_of_decomposes (t := t) htight (.cons hsegments .nil)
  obtain ⟨-, h⟩ := execute_fails_closed {} Host.isolated t {} .undefined ()
  obtain ⟨-, -, -, -, herror, -, hcount, -⟩ := h _ hsources
  have hfirst : ({} : Evaluator).evaluate Host.isolated "a" {} .undefined () =
      (.ok .undefined, ()) := by with_unfolding_all rfl
  have hsecond : ({} : Evaluator).evaluate Host.isolated "+" {} .undefined () =
      (.error (.malformed ⟨.unexpected .expression (.symbol .plus), 0⟩), ()) := by
    with_unfolding_all rfl
  rw [Evaluator.evaluations_cons_of_ok hfirst, Evaluator.evaluations_cons_of_error hsecond]
    at hcount herror
  exact ⟨hsources, hcount, _, (herror _).2 ⟨_, List.mem_cons_of_mem _ List.mem_cons_self, rfl⟩⟩

end Engine

end TemplateExpr
