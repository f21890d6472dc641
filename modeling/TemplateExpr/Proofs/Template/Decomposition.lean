import Mathlib.Logic.ExistsUnique
import TemplateExpr.Proofs.Template.Occurrence
import TemplateExpr.Text.Blank

namespace TemplateExpr

namespace Delimiters

def join (d : Delimiters) (parts : List (List Char × List Char)) (last : List Char) : List Char :=
  parts.foldr (fun p rest => p.1 ++ d.opening ++ p.2 ++ d.closing ++ rest) last

structure Decomposes (d : Delimiters) (cs : List Char) (s : Segments) : Prop where
  text : cs = d.join s.parts s.last
  opening : ∀ p ∈ s.parts, FirstAtEnd d.opening p.1
  inner : ∀ p ∈ s.parts, p.2 ≠ []
  closing : ∀ p ∈ s.parts, FirstAtEndBehindOne d.closing p.2
  last : ∀ a m b, m ≠ [] → s.last ≠ a ++ d.opening ++ m ++ d.closing ++ b

variable {d : Delimiters} {cs before inner last : List Char}
  {parts : List (List Char × List Char)} {s : Segments}

theorem decomposes_nil : d.Decomposes cs ⟨[], last⟩ ↔ last = cs ∧ d.placeholder? cs = none := by
  constructor
  · intro h
    have hcs : cs = last := h.text
    subst hcs
    exact ⟨rfl, placeholder?_eq_none.2 h.last⟩
  · rintro ⟨rfl, h⟩
    exact ⟨rfl, by simp, by simp, by simp, placeholder?_eq_none.1 h⟩

theorem decomposes_cons :
    d.Decomposes cs ⟨(before, inner) :: parts, last⟩ ↔
      ∃ rest, d.placeholder? cs = some ⟨before, inner, rest⟩ ∧ d.Decomposes rest ⟨parts, last⟩ := by
  constructor
  · intro h
    obtain ⟨hopen, hopens⟩ := List.forall_mem_cons.1 h.opening
    obtain ⟨hinner, hinners⟩ := List.forall_mem_cons.1 h.inner
    obtain ⟨hclose, hcloses⟩ := List.forall_mem_cons.1 h.closing
    refine ⟨d.join parts last, ?_, rfl, hopens, hinners, hcloses, h.last⟩
    exact placeholder?_eq_some.2 ⟨h.text, hopen, hinner, hclose⟩
  · rintro ⟨rest, hp, h⟩
    obtain ⟨hcs, hopen, hinner, hclose⟩ := placeholder?_eq_some.1 hp
    have hrest : rest = d.join parts last := h.text
    subst hrest
    exact ⟨hcs, List.forall_mem_cons.2 ⟨hopen, h.opening⟩,
      List.forall_mem_cons.2 ⟨hinner, h.inner⟩, List.forall_mem_cons.2 ⟨hclose, h.closing⟩, h.last⟩

theorem segments_of_none (h : d.placeholder? cs = none) : d.segments cs = ⟨[], cs⟩ := by
  rw [segments]
  split
  · rfl
  · simp_all

theorem segments_of_some {p : Placeholder} (h : d.placeholder? cs = some p) :
    d.segments cs = ⟨(p.before, p.inner) :: (d.segments p.after).parts, (d.segments p.after).last⟩ := by
  rw [segments]
  split
  · simp_all
  · simp_all

theorem decomposes_segments (d : Delimiters) (cs : List Char) :
    d.Decomposes cs (d.segments cs) := by
  induction cs using segments.induct d with
  | case1 cs h =>
      rw [segments_of_none h]
      exact decomposes_nil.2 ⟨rfl, h⟩
  | case2 cs p h ih =>
      rw [segments_of_some h]
      exact decomposes_cons.2 ⟨p.after, h, ih⟩

theorem Decomposes.eq_segments (h : d.Decomposes cs s) : s = d.segments cs := by
  obtain ⟨parts, last⟩ := s
  induction parts generalizing cs with
  | nil =>
      obtain ⟨rfl, hp⟩ := decomposes_nil.1 h
      rw [segments_of_none hp]
  | cons p parts ih =>
      obtain ⟨rest, hp, hrest⟩ := decomposes_cons.1 h
      rw [segments_of_some hp, ← ih hrest]

theorem placeholder?_nil (d : Delimiters) : d.placeholder? [] = none := by
  refine placeholder?_eq_none.2 fun a m b hm h => hm ?_
  simp only [List.nil_eq, List.append_eq_nil_iff] at h
  exact h.1.1.2

theorem decomposes_singleton :
    d.Decomposes cs ⟨[([], inner)], []⟩ ↔ d.placeholder? cs = some ⟨[], inner, []⟩ := by
  constructor
  · intro h
    obtain ⟨rest, hp, hrest⟩ := decomposes_cons.1 h
    rw [hp, ← (decomposes_nil.1 hrest).1]
  · intro h
    exact decomposes_cons.2 ⟨[], h, decomposes_nil.2 ⟨rfl, placeholder?_nil d⟩⟩

theorem existsUnique_decomposes (d : Delimiters) (cs : List Char) : ∃! s, d.Decomposes cs s :=
  ⟨d.segments cs, decomposes_segments d cs, fun _ h => h.eq_segments⟩

end Delimiters

end TemplateExpr
