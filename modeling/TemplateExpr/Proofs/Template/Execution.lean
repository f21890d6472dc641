import Mathlib.Data.List.TakeWhile
import TemplateExpr.Proofs.Template.Decomposition
import TemplateExpr.Template.Engine

namespace TemplateExpr

theorem Text.trimEnd_eq_nil {cs : List Char} : trimEnd cs = [] ↔ ∀ c ∈ cs, isBlank c := by
  rw [trimEnd, List.reverse_eq_nil_iff, List.dropWhile_eq_nil_iff]
  simp only [List.mem_reverse]

theorem Delimiters.placeholder?_trim_of_eq_none {d : Delimiters} {cs : List Char}
    (h : d.placeholder? cs = none) : d.placeholder? (Text.trim cs) = none := by
  obtain ⟨as, bs, -, -, hcs⟩ := Text.blanks_append_trim_append_blanks cs
  refine placeholder?_eq_none.2 fun a m b hm htrim => ?_
  refine placeholder?_eq_none.1 h (as ++ a) m (b ++ bs) hm ?_
  rw [hcs, htrim]
  simp

-- No placeholder begins or ends with a blank.
structure Delimiters.Tight (d : Delimiters) : Prop where
  opening : ∃ c rest, d.opening = c :: rest ∧ ¬ Text.isBlank c
  closing : ∃ rest c, d.closing = rest ++ [c] ∧ ¬ Text.isBlank c

namespace Delimiters.Tight

variable {d : Delimiters}

theorem trim_append (ht : d.Tight) (before inner after : List Char) :
    Text.trim (before ++ d.opening ++ inner ++ d.closing ++ after) =
      before.dropWhile Text.isBlank ++ d.opening ++ inner ++ d.closing ++ Text.trimEnd after := by
  obtain ⟨c, os, ho, hc⟩ := ht.opening
  obtain ⟨cs, c', hcl, hc'⟩ := ht.closing
  have hsplit : before ++ d.opening ++ inner ++ d.closing ++ after =
      before ++ c :: (os ++ inner ++ cs ++ c' :: after) := by
    simp [ho, hcl]
  have hend : before.dropWhile Text.isBlank ++ c :: (os ++ inner ++ cs ++ c' :: after) =
      before.dropWhile Text.isBlank ++ c :: (os ++ inner ++ cs) ++ c' :: after := by
    simp
  rw [hsplit, Text.trim, Text.dropWhile_append_cons hc, hend, Text.trimEnd_append_cons hc']
  simp [ho, hcl]

theorem placeholder?_trim (ht : d.Tight) (cs : List Char) :
    d.placeholder? (Text.trim cs) = (d.placeholder? cs).map fun p =>
      ⟨p.before.dropWhile Text.isBlank, p.inner, Text.trimEnd p.after⟩ := by
  cases hp : d.placeholder? cs with
  | none => exact placeholder?_trim_of_eq_none hp
  | some p =>
      obtain ⟨hcs, hopen, hinner, hclose⟩ := placeholder?_eq_some.1 hp
      refine placeholder?_eq_some.2 ⟨?_, ?_, hinner, hclose⟩
      · rw [hcs, ht.trim_append]
      · rw [← List.takeWhile_append_dropWhile (p := Text.isBlank) (l := p.before)] at hopen
        exact hopen.of_append

theorem placeholder?_blanks (ht : d.Tight) {cs : List Char} (h : ∀ c ∈ cs, Text.isBlank c) :
    d.placeholder? cs = none := by
  obtain ⟨c, os, ho, hc⟩ := ht.opening
  refine placeholder?_eq_none.2 fun a m b _ hcs => hc (h c ?_)
  simp [hcs, ho]

end Delimiters.Tight

theorem Options.tight {o : Options} (h : o.validate = .ok ())
    (hopen : ∀ c, o.opening.toList.head? = some c → ¬ Text.isBlank c)
    (hclose : ∀ c, o.closing.toList.getLast? = some c → ¬ Text.isBlank c) :
    o.delimiters.Tight := by
  have hempty : ¬ (o.opening = "" ∨ o.closing = "") := by
    intro hempty
    rw [validate, fault?, if_pos hempty] at h
    cases h
  obtain ⟨hne, hne'⟩ := not_or.1 hempty
  constructor
  · obtain ⟨c, rest, hc⟩ := List.exists_cons_of_ne_nil (mt String.toList_eq_nil_iff.1 hne)
    exact ⟨c, rest, hc, hopen c (by rw [hc]; rfl)⟩
  · have hnil := mt String.toList_eq_nil_iff.1 hne'
    exact ⟨_, _, (List.dropLast_concat_getLast hnil).symm,
      hclose _ (List.getLast?_eq_some_getLast hnil)⟩

def Segments.Lone (s : Segments) (inner : List Char) : Prop :=
  ∃ before, s.parts = [(before, inner)] ∧ (∀ c ∈ before, Text.isBlank c) ∧
    ∀ c ∈ s.last, Text.isBlank c

def Segments.weave (last : List Char) : List (List Char × List Char) → List String → String
  | p :: parts, t :: ts => String.ofList p.1 ++ t ++ weave last parts ts
  | _, _ => String.ofList last

namespace Engine

variable {σ : Type} {d : Delimiters} {s : Segments} {t : String}

theorem interpolate_eq_mapM (evaluate : String → Run σ Value) (last : List Char)
    (parts : List (List Char × List Char)) :
    interpolate evaluate last parts = (do
      let vs ← parts.mapM fun p => evaluate (String.ofList p.2)
      pure (Segments.weave last parts (vs.map Value.toText))) := by
  induction parts with
  | nil => simp [interpolate, Segments.weave]
  | cons p parts ih =>
      obtain ⟨before, inner⟩ := p
      rw [interpolate, ih]
      simp [Segments.weave]

theorem render_of_parts_nil (ht : d.Tight) (h : d.Decomposes t.toList s) (hs : s.parts = [])
    (evaluate : String → Run σ Value) : render d evaluate t = pure (.text t) := by
  obtain ⟨parts, last⟩ := s
  cases hs
  have hp := (Delimiters.decomposes_nil.1 h).2
  have htrim := ht.placeholder?_trim t.toList
  rw [hp] at htrim
  simp only [render, htrim, Option.map_none]

theorem render_of_lone {inner : List Char} (ht : d.Tight) (h : d.Decomposes t.toList s)
    (hs : s.Lone inner) (evaluate : String → Run σ Value) :
    render d evaluate t = evaluate (String.ofList inner) := by
  obtain ⟨before, hparts, hbefore, hlast⟩ := hs
  obtain ⟨parts, last⟩ := s
  cases hparts
  obtain ⟨rest, hp, hrest⟩ := Delimiters.decomposes_cons.1 h
  obtain ⟨rfl, -⟩ := Delimiters.decomposes_nil.1 hrest
  have htrim := ht.placeholder?_trim t.toList
  simp only [hp, Option.map_some, List.dropWhile_eq_nil_iff.2 hbefore, Text.trimEnd_eq_nil.2 hlast]
    at htrim
  simp only [render, htrim]

theorem render_of_not_lone (ht : d.Tight) (h : d.Decomposes t.toList s) (hs : s.parts ≠ [])
    (hlone : ∀ inner, ¬ s.Lone inner) (evaluate : String → Run σ Value) :
    render d evaluate t = (do
      let vs ← s.parts.mapM fun p => evaluate (String.ofList p.2)
      pure (.text (Segments.weave s.last s.parts (vs.map Value.toText)))) := by
  have hseg := h.eq_segments
  obtain ⟨parts, last⟩ := s
  obtain ⟨⟨before, inner⟩, parts, rfl⟩ := List.exists_cons_of_ne_nil hs
  obtain ⟨rest, hp, hrest⟩ := Delimiters.decomposes_cons.1 h
  have htrim := ht.placeholder?_trim t.toList
  rw [hp] at htrim
  -- Blanks alone behind the placeholder would leave no other one, so it would be a lone one.
  have hne : ¬ (before.dropWhile Text.isBlank = [] ∧ Text.trimEnd rest = []) := by
    rintro ⟨hbefore, hafter⟩
    rw [List.dropWhile_eq_nil_iff] at hbefore
    rw [Text.trimEnd_eq_nil] at hafter
    have hnil : d.Decomposes rest ⟨[], rest⟩ :=
      Delimiters.decomposes_nil.2 ⟨rfl, ht.placeholder?_blanks hafter⟩
    cases hrest.eq_segments.trans hnil.eq_segments.symm
    exact hlone inner ⟨before, rfl, hbefore, hafter⟩
  have hrender : render d evaluate t = (do
      let text ← interpolate evaluate (d.segments t.toList).last (d.segments t.toList).parts
      pure (.text text)) := by
    rw [render, htrim]
    simp only [Option.map_some]
    split
    · contradiction
    · rename_i heq
      simp only [Option.some.injEq, Placeholder.mk.injEq] at heq
      exact absurd ⟨heq.1, heq.2.2⟩ hne
    · rfl
  rw [hrender, ← hseg, interpolate_eq_mapM]
  simp

theorem ofOptions_eq_ok {o : Options} {e : Engine} :
    ofOptions o = .ok e ↔ o.validate = .ok () ∧ e = ⟨⟨o.denyList, o.maxDepth⟩, o.delimiters⟩ := by
  rw [ofOptions, Evaluator.ofOptions]
  cases o.validate with
  | error f => simp [Except.map]
  | ok u => simp [Except.map, eq_comm]

theorem execute_single (e : Engine) (host : Host σ) (t : String) (data : Bindings)
    (receiver : Value) :
    e.execute host (.single t) data receiver = (do
      let v ← render e.delimiters (fun source => e.evaluator.evaluate host source data receiver) t
      pure (.single v)) := rfl

theorem execute_eq_segments {o : Options} {e : Engine} (he : ofOptions o = .ok e)
    (hopen : ∀ c, o.opening.toList.head? = some c → ¬ Text.isBlank c)
    (hclose : ∀ c, o.closing.toList.getLast? = some c → ¬ Text.isBlank c) (t : String) :
    (∃! s, o.delimiters.Decomposes t.toList s) ∧
      ∀ s, o.delimiters.Decomposes t.toList s →
        ∀ (σ : Type) (host : Host σ) (data : Bindings) (receiver : Value),
          (s.parts = [] →
            e.execute host (.single t) data receiver = pure (.single (.text t))) ∧
          (∀ inner, s.Lone inner →
            e.execute host (.single t) data receiver = (do
              let v ← e.evaluator.evaluate host (String.ofList inner) data receiver
              pure (.single v))) ∧
          (s.parts ≠ [] → (∀ inner, ¬ s.Lone inner) →
            e.execute host (.single t) data receiver = (do
              let vs ← s.parts.mapM fun p =>
                e.evaluator.evaluate host (String.ofList p.2) data receiver
              pure (.single (.text (Segments.weave s.last s.parts (vs.map Value.toText)))))) := by
  obtain ⟨hvalid, rfl⟩ := ofOptions_eq_ok.1 he
  have ht := Options.tight hvalid hopen hclose
  refine ⟨o.delimiters.existsUnique_decomposes t.toList, ?_⟩
  intro s hs σ host data receiver
  refine ⟨fun hnil => ?_, fun inner hlone => ?_, fun hne hlone => ?_⟩
  · rw [execute_single, render_of_parts_nil ht hs hnil]
    rfl
  · rw [execute_single, render_of_lone ht hs hlone]
  · rw [execute_single, render_of_not_lone ht hs hne hlone]
    simp

theorem execute_eq_segments_of_lone :
    ({} : Engine).execute Host.isolated (.single "\x7b\x7ba\x7d\x7d ") {} .undefined = (do
      let v ← ({} : Evaluator).evaluate Host.isolated "a" {} .undefined
      pure (.single v)) := by
  have hs : ({} : Options).delimiters.Decomposes "\x7b\x7ba\x7d\x7d ".toList
      ⟨[([], ['a'])], [' ']⟩ := by
    have hseg : ({} : Options).delimiters.segments "\x7b\x7ba\x7d\x7d ".toList =
        ⟨[([], ['a'])], [' ']⟩ := by with_unfolding_all rfl
    rw [← hseg]
    exact Delimiters.decomposes_segments _ _
  have hlone : Segments.Lone ⟨[([], ['a'])], [' ']⟩ ['a'] :=
    ⟨[], rfl, by simp, List.forall_mem_singleton.2 (by decide)⟩
  have hopen : ∀ c, ({} : Options).opening.toList.head? = some c → ¬ Text.isBlank c := by
    rintro c ⟨⟩
    decide
  have hclose : ∀ c, ({} : Options).closing.toList.getLast? = some c → ¬ Text.isBlank c := by
    rintro c ⟨⟩
    decide
  have h := execute_eq_segments ofOptions_default hopen hclose "\x7b\x7ba\x7d\x7d "
  exact (h.2 _ hs Unit Host.isolated {} .undefined).2.1 ['a'] hlone

end Engine

end TemplateExpr
