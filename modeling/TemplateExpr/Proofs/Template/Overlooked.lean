import TemplateExpr.Proofs.Template.Checks

namespace TemplateExpr

namespace Text

variable {cs : List Char}

theorem head?_trim : ∀ c ∈ (trim cs).head?, ¬ isBlank c := by
  intro c hc
  have hhead := List.head?_dropWhile_not isBlank cs
  rw [trim] at hc
  cases hdrop : cs.dropWhile isBlank with
  | nil =>
      rw [hdrop] at hc
      cases hc
  | cons d ds =>
      rw [hdrop] at hc hhead
      have hd : ¬ isBlank d := by simpa using hhead
      have htrim := trimEnd_append_cons hd [] ds
      rw [List.nil_append, List.nil_append] at htrim
      rw [htrim] at hc
      cases hc
      exact hd

theorem getLast?_trim : ∀ c ∈ (trim cs).getLast?, ¬ isBlank c := by
  intro c hc
  rw [trim, trimEnd, List.getLast?_reverse] at hc
  have hhead := List.head?_dropWhile_not isBlank (cs.dropWhile isBlank).reverse
  rw [hc] at hhead
  simpa using hhead

theorem length_trim_lt
    (h : (∃ c ∈ cs.head?, isBlank c = true) ∨ ∃ c ∈ cs.getLast?, isBlank c = true) :
    (trim cs).length < cs.length := by
  obtain ⟨as, bs, -, -, hcs⟩ := blanks_append_trim_append_blanks cs
  have hlength := congrArg List.length hcs
  rw [List.length_append, List.length_append] at hlength
  refine Nat.lt_of_le_of_ne (by omega) fun heq => ?_
  have has : as = [] := List.eq_nil_of_length_eq_zero (by omega)
  have hbs : bs = [] := List.eq_nil_of_length_eq_zero (by omega)
  rw [has, hbs, List.nil_append, List.append_nil] at hcs
  rcases h with ⟨c, hc, hblank⟩ | ⟨c, hc, hblank⟩
  · exact head?_trim c (hcs ▸ hc) hblank
  · exact getLast?_trim c (hcs ▸ hc) hblank

end Text

namespace Delimiters

variable {d : Delimiters} {cs : List Char}

theorem Occurs.length_le (h : d.Occurs cs) :
    d.opening.length + 1 + d.closing.length ≤ cs.length := by
  obtain ⟨a, m, b, hm, rfl⟩ := h
  have := List.length_pos_iff.2 hm
  simp only [List.length_append]
  omega

theorem Tight.occurs_trim (ht : d.Tight) (h : d.Occurs cs) : d.Occurs (Text.trim cs) := by
  by_contra htrim
  rw [not_occurs, ht.placeholder?_trim, Option.map_eq_none_iff] at htrim
  exact not_occurs.2 htrim h

-- A placeholder of one character loses a blank of its delimiters and is too short then.
theorem exists_overlooked
    (h : (∃ c ∈ d.opening.head?, Text.isBlank c = true) ∨
      ∃ c ∈ d.closing.getLast?, Text.isBlank c = true) :
    ∃ cs, d.Occurs cs ∧ ¬ d.Occurs (Text.trim cs) := by
  refine ⟨d.opening ++ ['x'] ++ d.closing, ⟨[], ['x'], [], by simp, by simp⟩, fun hoccurs => ?_⟩
  have hshort : (Text.trim (d.opening ++ ['x'] ++ d.closing)).length <
      (d.opening ++ ['x'] ++ d.closing).length := by
    refine Text.length_trim_lt (h.imp ?_ ?_)
    · rintro ⟨c, hc, hblank⟩
      refine ⟨c, ?_, hblank⟩
      rw [List.append_assoc, List.head?_append, Option.mem_def.1 hc]
      rfl
    · rintro ⟨c, hc, hblank⟩
      refine ⟨c, ?_, hblank⟩
      rw [List.getLast?_append, Option.mem_def.1 hc]
      rfl
  have hle := hoccurs.length_le
  simp only [List.length_append, List.length_singleton] at hle hshort
  omega

theorem sources_ne_nil {s : String} : d.sources s ≠ [] ↔ d.Occurs (Text.trim s.toList) := by
  rw [← not_iff_not, not_not, not_occurs]
  constructor
  · intro hnil
    unfold sources at hnil
    split at hnil
    · assumption
    · cases hnil
    · rename_i p _ hp
      have hs : d.placeholder? s.toList ≠ none := by
        intro hnone
        rw [placeholder?_trim_of_eq_none hnone] at hp
        cases hp
      obtain ⟨q, hq⟩ := Option.ne_none_iff_exists'.1 hs
      rw [segments_of_some hq] at hnil
      cases hnil
  · intro hnone
    rw [sources, hnone]

end Delimiters

namespace Engine

variable {σ : Type}

theorem execute_of_not_occurs {e : Engine} {t : String}
    (h : ¬ e.delimiters.Occurs (Text.trim t.toList)) (host : Host σ) (data : Bindings)
    (receiver : Value) : e.execute host (.single t) data receiver = pure (.single (.text t)) := by
  rw [execute_single, render, Delimiters.not_occurs.1 h]
  rfl

theorem countP_isScope_pos {e : Engine} {host : Host σ} {t : String} {data : Bindings}
    {receiver : Value} {s : σ} :
    0 < (e.events host (.single t) data receiver s).countP Event.isScope ↔
      e.delimiters.Occurs (Text.trim t.toList) := by
  have hevaluations : e.evaluations host (.single t) data receiver s ≠ [] ↔
      e.delimiters.sources t ≠ [] := by
    rw [evaluations, sources, Template.texts, List.flatMap_singleton]
    cases e.delimiters.sources t <;> simp [Evaluator.evaluations]
  rw [countP_isScope_events, List.length_pos_iff, hevaluations, Delimiters.sources_ne_nil]

theorem execute_overlooks_none_iff {o : Options} (h : o.validate = .ok ()) :
    ∃ e, ofOptions o = .ok e ∧
      ∀ (σ : Type) (host : Host σ) (data : Bindings) (receiver : Value) (s : σ),
        (∀ t, 0 < (e.events host (.single t) data receiver s).countP Event.isScope ↔
          o.delimiters.Occurs (Text.trim t.toList)) ∧
        (∀ t, ¬ o.delimiters.Occurs (Text.trim t.toList) →
          e.execute host (.single t) data receiver = pure (.single (.text t))) ∧
        ((∀ t : String, o.delimiters.Occurs t.toList →
            0 < (e.events host (.single t) data receiver s).countP Event.isScope) ↔
          (∀ c, o.opening.toList.head? = some c → ¬ Text.isBlank c) ∧
            ∀ c, o.closing.toList.getLast? = some c → ¬ Text.isBlank c) := by
  refine ⟨_, ofOptions_eq_ok.2 ⟨h, rfl⟩, fun σ host data receiver s => ?_⟩
  refine ⟨fun t => countP_isScope_pos, fun t ht => execute_of_not_occurs ht host data receiver, ?_⟩
  simp only [countP_isScope_pos]
  constructor
  · intro hall
    by_contra hblank
    have hends : (∃ c ∈ o.delimiters.opening.head?, Text.isBlank c = true) ∨
        ∃ c ∈ o.delimiters.closing.getLast?, Text.isBlank c = true := by
      simp only [not_and_or, not_forall, not_not, exists_prop] at hblank
      exact hblank
    obtain ⟨cs, hcs, htrim⟩ := Delimiters.exists_overlooked hends
    have hchecked := hall (String.ofList cs)
    rw [String.toList_ofList] at hchecked
    exact htrim (hchecked hcs)
  · rintro ⟨hopen, hclose⟩ t ht
    exact (Options.tight h hopen hclose).occurs_trim ht

theorem execute_overlooks_none_iff_of_directive :
    let o : Options := { opening := "#", closing := "\n" }
    o.validate = .ok () ∧ ∃ e, ofOptions o = .ok e ∧
      0 < (e.events Host.isolated (.single "#a\n.") {} .undefined ()).countP Event.isScope := by
  intro o
  have hvalid : o.validate = .ok () := rfl
  obtain ⟨e, he, h⟩ := execute_overlooks_none_iff hvalid
  refine ⟨hvalid, e, he, ((h Unit Host.isolated {} .undefined ()).1 "#a\n.").2 ?_⟩
  exact ⟨[], ['a'], ['.'], by simp, by decide⟩

theorem execute_overlooks_directive :
    let o : Options := { opening := "#", closing := "\n" }
    let data : Bindings := ⟨[("a", .json (.text "x"))], []⟩
    o.validate = .ok () ∧ o.delimiters.Occurs "#a\n".toList ∧ ∃ e, ofOptions o = .ok e ∧
      e.execute Host.isolated (.single "#a\n") data .undefined () =
        (.ok (.single (.text "#a\n")), ()) ∧
      e.events Host.isolated (.single "#a\n") data .undefined () = [] := by
  intro o data
  let e : Engine := ⟨⟨o.denyList, o.maxDepth⟩, o.delimiters⟩
  have htrim : Text.trim "#a\n".toList = ['#', 'a'] := by decide
  have hfree : ¬ e.delimiters.Occurs (Text.trim "#a\n".toList) := by
    rw [htrim]
    exact fun h => absurd h.length_le (by decide)
  have hrun {σ : Type} (host : Host σ) :
      e.execute host (.single "#a\n") data .undefined = pure (.single (.text "#a\n")) :=
    execute_of_not_occurs (e := e) hfree host data .undefined
  refine ⟨rfl, ⟨[], ['a'], [], by simp, by decide⟩, e,
    ofOptions_eq_ok.2 ⟨rfl, rfl⟩, ?_, ?_⟩
  · rw [hrun]
    rfl
  · rw [events, hrun]
    rfl

end Engine

end TemplateExpr
