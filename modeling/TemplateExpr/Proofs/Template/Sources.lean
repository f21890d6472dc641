import Mathlib.Data.List.Forall2
import TemplateExpr.Proofs.Host.Check
import TemplateExpr.Proofs.Template.Execution

namespace TemplateExpr

variable {σ α β : Type}

def Template.texts : Template → List String
  | .single s => [s]
  | .list ss => ss

def Segments.sources (s : Segments) : List String :=
  s.parts.map fun p => String.ofList p.2

-- The expressions that a text has evaluated. Whether there are any is asked of the text without the
-- blanks around it, and so is whether one placeholder is all there is; the text itself is what is
-- taken apart else.
inductive Delimiters.Evaluates (d : Delimiters) (t : String) : List String → Prop
  | absent : ¬ d.Occurs (Text.trim t.toList) → Evaluates d t []
  | alone {inner} : d.Decomposes (Text.trim t.toList) ⟨[([], inner)], []⟩ →
      Evaluates d t [String.ofList inner]
  | several {s} : d.Occurs (Text.trim t.toList) →
      (∀ inner, ¬ d.Decomposes (Text.trim t.toList) ⟨[([], inner)], []⟩) →
      d.Decomposes t.toList s → Evaluates d t s.sources

def Engine.Evaluates (e : Engine) (t : Template) (sources : List String) : Prop :=
  ∃ parts, List.Forall₂ e.delimiters.Evaluates t.texts parts ∧ sources = parts.flatten

def Delimiters.sources (d : Delimiters) (s : String) : List String :=
  match d.placeholder? (Text.trim s.toList) with
  | none => []
  | some ⟨[], inner, []⟩ => [String.ofList inner]
  | some _ => (d.segments s.toList).sources

def Engine.sources (e : Engine) (t : Template) : List String :=
  t.texts.flatMap e.delimiters.sources

-- A run that is, but for its result, the evaluation of some sources one after the other.
def Run.Traverses (evaluate : String → Run σ Value) (sources : List String) (x : Run σ α) : Prop :=
  (do let _ ← x; pure ()) = forM sources fun source => do let _ ← evaluate source; pure ()

namespace Run.Traverses

variable {evaluate : String → Run σ Value} {xs ys : List String}

theorem pure (a : α) : Traverses evaluate [] (pure a) := by
  simp [Traverses]

theorem evaluation (evaluate : String → Run σ Value) (source : String) :
    Traverses evaluate [source] (evaluate source) := by
  simp [Traverses]

theorem bind {x : Run σ α} {f : α → Run σ β} (h : Traverses evaluate xs x)
    (hf : ∀ a, Traverses evaluate ys (f a)) : Traverses evaluate (xs ++ ys) (x >>= f) := by
  unfold Traverses at h hf ⊢
  rw [bind_assoc, List.forM_append, ← h]
  simp only [hf, bind_assoc, pure_bind]

theorem map {x : Run σ α} (h : Traverses evaluate xs x) (f : α → β) :
    Traverses evaluate xs (do let a ← x; Pure.pure (f a)) := by
  have := h.bind (f := fun a => Pure.pure (f a)) fun a => pure (f a)
  rwa [List.append_nil] at this

theorem interpolate (evaluate : String → Run σ Value) (last : List Char)
    (parts : List (List Char × List Char)) :
    Traverses evaluate (parts.map fun p => String.ofList p.2)
      (Engine.interpolate evaluate last parts) := by
  induction parts with
  | nil => exact pure (String.ofList last)
  | cons p parts ih =>
      obtain ⟨before, inner⟩ := p
      rw [Engine.interpolate, List.map_cons]
      exact (evaluation evaluate (String.ofList inner)).bind fun v => ih.map _

theorem render (d : Delimiters) (evaluate : String → Run σ Value) (s : String) :
    Traverses evaluate (d.sources s) (Engine.render d evaluate s) := by
  have hwoven := (interpolate evaluate (d.segments s.toList).last (d.segments s.toList).parts).map
    Value.text
  unfold Delimiters.sources Engine.render
  rcases d.placeholder? (Text.trim s.toList) with _ | ⟨_ | _, inner, _ | _⟩
  · exact pure (Value.text s)
  · exact evaluation evaluate (String.ofList inner)
  all_goals exact hwoven

theorem renderAll (d : Delimiters) (evaluate : String → Run σ Value) (ss : List String) :
    Traverses evaluate (ss.flatMap d.sources) (Engine.renderAll d evaluate ss) := by
  induction ss with
  | nil => exact pure []
  | cons s ss ih =>
      rw [Engine.renderAll, List.flatMap_cons]
      exact (render d evaluate s).bind fun v => ih.map _

theorem execute (e : Engine) (host : Host σ) (t : Template) (data : Bindings) (receiver : Value) :
    Traverses (fun source => e.evaluator.evaluate host source data receiver) (e.sources t)
      (e.execute host t data receiver) := by
  cases t with
  | single s =>
      have h := (render e.delimiters
        (fun source => e.evaluator.evaluate host source data receiver) s).map Output.single
      rwa [← List.append_nil (e.delimiters.sources s)] at h
  | list ss => exact (renderAll e.delimiters _ ss).map Output.list

end Run.Traverses

namespace Delimiters

variable {d : Delimiters} {t : String} {xs : List String}

theorem evaluates_iff : d.Evaluates t xs ↔ xs = d.sources t := by
  constructor
  · intro h
    unfold sources
    cases h with
    | absent h => rw [not_occurs.1 h]
    | alone h => rw [decomposes_singleton.1 h]
    | several hoccurs hlone h =>
        split
        · exact absurd hoccurs (not_occurs.2 ‹_›)
        · exact absurd (decomposes_singleton.2 ‹_›) (hlone _)
        · rw [h.eq_segments]
  · rintro rfl
    unfold sources
    split
    · exact .absent (not_occurs.2 ‹_›)
    · exact .alone (decomposes_singleton.2 ‹_›)
    · rename_i p hlone hp
      have hoccurs : d.Occurs (Text.trim t.toList) := by
        rw [← not_not (a := d.Occurs _), not_occurs, hp]
        exact Option.some_ne_none p
      refine .several hoccurs (fun inner h => ?_) (decomposes_segments d t.toList)
      rw [decomposes_singleton, hp, Option.some.injEq] at h
      exact hlone inner h

theorem sources_eq_nil {s : String}
    (h : ∀ a m b, m ≠ [] → s.toList ≠ a ++ d.opening ++ m ++ d.closing ++ b) :
    d.sources s = [] := by
  rw [sources, placeholder?_trim_of_eq_none (placeholder?_eq_none.2 h)]

theorem Tight.sources_eq (ht : d.Tight) (s : String) :
    d.sources s = (d.segments s.toList).sources := by
  have htrim := ht.placeholder?_trim s.toList
  unfold sources
  split
  · rename_i hnone
    rw [hnone, eq_comm, Option.map_eq_none_iff] at htrim
    rw [segments_of_none htrim]
    rfl
  · rename_i inner hlone
    rw [hlone, eq_comm, Option.map_eq_some_iff] at htrim
    obtain ⟨p, hp, hlone⟩ := htrim
    simp only [Placeholder.mk.injEq, Text.trimEnd_eq_nil] at hlone
    have hafter : d.segments p.after = ⟨[], p.after⟩ :=
      segments_of_none (ht.placeholder?_blanks hlone.2.2)
    rw [segments_of_some hp, hafter, hlone.2.1]
    rfl
  · rfl

theorem Tight.evaluates_iff (ht : d.Tight) :
    d.Evaluates t xs ↔ ∃ s, d.Decomposes t.toList s ∧ xs = s.sources := by
  rw [Delimiters.evaluates_iff, ht.sources_eq]
  constructor
  · rintro rfl
    exact ⟨_, decomposes_segments d t.toList, rfl⟩
  · rintro ⟨s, hs, rfl⟩
    rw [hs.eq_segments]

end Delimiters

namespace Engine

variable {e : Engine} {t : Template} {xs : List String}

theorem evaluates_iff : e.Evaluates t xs ↔ xs = e.sources t := by
  have hevaluates : e.delimiters.Evaluates = fun text part => e.delimiters.sources text = part := by
    funext text part
    exact propext (Delimiters.evaluates_iff.trans eq_comm)
  have hparts (parts : List (List String)) :
      List.Forall₂ e.delimiters.Evaluates t.texts parts ↔
        t.texts.map e.delimiters.sources = parts := by
    rw [hevaluates, ← List.forall₂_map_left_iff, List.forall₂_eq_eq_eq]
  simp only [Evaluates, hparts, exists_eq_left', sources, List.flatMap_def]

theorem existsUnique_evaluates (e : Engine) (t : Template) : ∃! sources, e.Evaluates t sources :=
  ⟨e.sources t, evaluates_iff.2 rfl, fun _ h => evaluates_iff.1 h⟩

theorem evaluates_of_decomposes (ht : e.delimiters.Tight) {segments : List Segments}
    (h : List.Forall₂ (fun text s => e.delimiters.Decomposes text.toList s) t.texts segments) :
    e.Evaluates t (segments.flatMap Segments.sources) := by
  refine ⟨segments.map Segments.sources, ?_, List.flatMap_def⟩
  rw [List.forall₂_map_right_iff]
  exact h.imp fun text s hs => ht.evaluates_iff.2 ⟨s, hs, rfl⟩

end Engine

end TemplateExpr
