import TemplateExpr.Proofs.Scope.Similar
import TemplateExpr.Template.Engine

namespace TemplateExpr

variable {σ : Type}

def StrictFree (limit : Nat) (source : String) : Prop :=
  ∀ e, Expr.parse limit source = .ok e → ∀ op ∈ e.binaryOps, op.isStrictEquality = false

theorem Run.AgreeOn.eq {α : Type} {x y : Run σ α} (h : Run.AgreeOn id x y) : x = y := by
  simpa [Run.AgreeOn] using h

theorem Value.Similar.toText_eq {a b : Value} (h : a.Similar b) : a.toText = b.toText := by
  rw [← a.toText_visible, h, b.toText_visible]

namespace Bindings.Similar

variable {b₁ b₂ : Bindings} {receiver : Value} {source : String}

theorem evaluator (hb : b₁.Similar b₂) (e : Evaluator) (host : Host σ)
    (hs : StrictFree e.maxDepth source) :
    Run.AgreeOn Value.visible (e.evaluate host source b₁ receiver)
      (e.evaluate host source b₂ receiver) := by
  refine (Run.AgreeOn.refl id host.ensureIsolated).bind fun _ _ _ => ?_
  unfold Evaluator.parse
  cases hp : Expr.parse e.maxDepth source with
  | error m => exact .refl _ _
  | ok x =>
      rw [pure_bind, pure_bind]
      exact hb.evaluate host x (hs x hp)

theorem events (hb : b₁.Similar b₂) (e : Evaluator) (host : Host σ)
    (hs : StrictFree e.maxDepth source) (s : σ) :
    e.events host source b₁ receiver s = e.events host source b₂ receiver s :=
  congrArg Prod.snd ((hb.evaluator e host.recording hs).apply (s, [])).2

theorem interpolate (hb : b₁.Similar b₂) (e : Evaluator) (host : Host σ) (last : List Char)
    {parts : List (List Char × List Char)}
    (hs : ∀ p ∈ parts, StrictFree e.maxDepth (String.ofList p.2)) :
    Engine.interpolate (fun source => e.evaluate host source b₁ receiver) last parts =
      Engine.interpolate (fun source => e.evaluate host source b₂ receiver) last parts := by
  induction parts with
  | nil => rfl
  | cons p parts ih =>
      obtain ⟨before, inner⟩ := p
      obtain ⟨hinner, hparts⟩ := List.forall_mem_cons.1 hs
      rw [Engine.interpolate, Engine.interpolate, ih hparts]
      refine Run.AgreeOn.eq ((hb.evaluator e host hinner).bind fun v w hv => ?_)
      rw [Value.Similar.toText_eq hv]
      exact .refl _ _

end Bindings.Similar

theorem hidden_keys_have_no_influence (e : Evaluator) (host : Host σ) (receiver : Value)
    {b₁ b₂ : Bindings} (hb : b₁.Similar b₂) :
    (∀ source, StrictFree e.maxDepth source → ∀ s,
      let run₁ := e.evaluate host source b₁ receiver s
      let run₂ := e.evaluate host source b₂ receiver s
      ((∃ f, run₁.1 = .error f ∧ run₂.1 = .error f) ∨
        ∃ v₁ v₂, run₁.1 = .ok v₁ ∧ run₂.1 = .ok v₂ ∧ v₁.Similar v₂ ∧ v₁.toText = v₂.toText) ∧
      run₁.2 = run₂.2 ∧
      e.events host source b₁ receiver s = e.events host source b₂ receiver s) ∧
    ∀ last parts, (∀ p ∈ parts, StrictFree e.maxDepth (String.ofList p.2)) →
      Engine.interpolate (fun source => e.evaluate host source b₁ receiver) last parts =
        Engine.interpolate (fun source => e.evaluate host source b₂ receiver) last parts := by
  constructor
  · intro source hs s run₁ run₂
    have hagree : Run.AgreeOn Value.visible (e.evaluate host source b₁ receiver)
        (e.evaluate host source b₂ receiver) := hb.evaluator e host hs
    obtain ⟨hresult, hstate⟩ : run₁.1.map Value.visible = run₂.1.map Value.visible ∧
        run₁.2 = run₂.2 := hagree.apply s
    refine ⟨?_, hstate, hb.events e host hs s⟩
    cases h₁ : run₁.1 <;> cases h₂ : run₂.1 <;>
      simp only [h₁, h₂, Except.map, Except.error.injEq, Except.ok.injEq, reduceCtorEq] at hresult
    · exact .inl ⟨_, rfl, by rw [hresult]⟩
    · exact .inr ⟨_, _, rfl, rfl, hresult, Value.Similar.toText_eq hresult⟩
  · intro last parts hs
    exact hb.interpolate e host last hs

theorem hidden_keys_have_no_influence_of_constructor :
    let b₁ : Bindings := ⟨[("a", .json (.object [("constructor", .boolean true), ("k", .null)]))], []⟩
    let b₂ : Bindings := ⟨[("a", .json (.object [("k", .null)]))], []⟩
    let parts := [(['<'], "a['con'+'structor']".toList)]
    b₁.Similar b₂ ∧
      Engine.interpolate (fun source => (⟨{}, 8⟩ : Evaluator).evaluate Host.isolated source b₁ .null)
          ['>'] parts =
        Engine.interpolate (fun source => (⟨{}, 8⟩ : Evaluator).evaluate Host.isolated source b₂ .null)
          ['>'] parts := by
  intro b₁ b₂ parts
  have hb : b₁.Similar b₂ := by
    refine ⟨fun name => ?_, fun name => rfl⟩
    simp only [Bindings.field?, b₁, b₂, List.lookup_cons, List.lookup_nil]
    cases name == "a" <;> rfl
  have hs : StrictFree 8 "a['con'+'structor']" := by
    have hp : Expr.parse 8 "a['con'+'structor']" =
        .ok (.index 0 (.name 0 "a") (.binary 2 .add (.literal 2 (.text "con"))
          (.literal 8 (.text "structor")))) := by with_unfolding_all rfl
    intro x hx
    cases hp.symm.trans hx
    decide
  refine ⟨hb, (hidden_keys_have_no_influence _ Host.isolated .null hb).2 ['>'] parts ?_⟩
  rw [List.forall_mem_singleton, String.ofList_toList]
  exact hs

end TemplateExpr
