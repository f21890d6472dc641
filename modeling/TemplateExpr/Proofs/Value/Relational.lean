import TemplateExpr.Proofs.Double.Order
import TemplateExpr.Proofs.Text.Order
import TemplateExpr.Value.Operators

namespace TemplateExpr

theorem Double.compare?_swap (a b : Double) : b.compare? a = (a.compare? b).map Ordering.swap := by
  by_cases h : a = .nan ∨ b = .nan
  · rw [compare?_eq_none.2 h, compare?_eq_none.2 h.symm, Option.map_none]
  · obtain ⟨ha, hb⟩ := not_or.1 h
    rw [compare?_eq_compare ha hb, compare?_eq_compare hb ha, Option.map_some,
      Std.OrientedOrd.eq_swap (a := b.position)]

namespace Value

variable {a b : Value} {o : Ordering}

theorem compare?_text (s t : String) :
    (text s).compare? (text t) = some (Text.unitOrder s.toList t.toList) :=
  rfl

theorem compare?_of_not_isText (h : ¬ (a.isText ∧ b.isText)) :
    a.compare? b = a.toDouble.compare? b.toDouble := by
  unfold compare?
  split
  · exact absurd ⟨rfl, rfl⟩ h
  · rfl

theorem exists_text_of_isText (h : a.isText) : ∃ s, a = text s := by
  unfold isText at h
  split at h
  · exact ⟨_, rfl⟩
  · cases h

theorem compare?_swap (a b : Value) : b.compare? a = (a.compare? b).map Ordering.swap := by
  by_cases h : a.isText ∧ b.isText
  · obtain ⟨s, rfl⟩ := exists_text_of_isText h.1
    obtain ⟨t, rfl⟩ := exists_text_of_isText h.2
    rw [compare?_text, compare?_text, Text.unitOrder_swap, Option.map_some]
  · rw [compare?_of_not_isText h, compare?_of_not_isText fun h' => h h'.symm]
    exact Double.compare?_swap _ _

theorem compare?_eq_none (h : ¬ (a.isText ∧ b.isText)) :
    a.compare? b = none ↔ a.toDouble = .nan ∨ b.toDouble = .nan := by
  rw [compare?_of_not_isText h, Double.compare?_eq_none]

theorem gt_eq_lt (a b : Value) : a.gt b = b.lt a := by
  rw [gt, lt, compare?_swap a b, Option.any_map]
  congr 1
  funext o
  exact (Ordering.isLT_swap).symm

theorem ge_eq_le (a b : Value) : a.ge b = b.le a := by
  rw [ge, le, compare?_swap a b, Option.any_map]
  congr 1
  funext o
  exact (Ordering.isLE_swap).symm

theorem le_eq_not_gt (h : a.compare? b = some o) : a.le b = !a.gt b := by
  rw [le, gt, h]
  cases o <;> rfl

theorem ge_eq_not_lt (h : a.compare? b = some o) : a.ge b = !a.lt b := by
  rw [ge, lt, h]
  cases o <;> rfl

theorem not_related (h : a.compare? b = none) : ∀ r ∈ [lt, le, gt, ge], r a b = false := by
  simp [lt, le, gt, ge, h]

section

variable (s t : String)

theorem lt_text : (text s).lt (text t) = (Text.unitOrder s.toList t.toList).isLT :=
  rfl

theorem le_text : (text s).le (text t) = (Text.unitOrder s.toList t.toList).isLE :=
  rfl

theorem lt_text_swap : (text t).lt (text s) = (Text.unitOrder s.toList t.toList).isGT := by
  rw [lt_text, Text.unitOrder_swap, Ordering.isLT_swap]

theorem strictEq_text : (text s).strictEq (text t) = (Text.unitOrder s.toList t.toList).isEq := by
  rw [Bool.eq_iff_iff, Ordering.isEq_iff_eq_eq, Text.unitOrder_eq_eq, String.toList_inj]
  exact beq_iff_eq

end

theorem relations_agree :
    (∀ a b : Value, a.gt b = b.lt a ∧ a.ge b = b.le a ∧
      (¬ (a.isText ∧ b.isText) →
        (a.toDouble = .nan ∨ b.toDouble = .nan → ∀ r ∈ [lt, le, gt, ge], r a b = false) ∧
        (a.toDouble ≠ .nan → b.toDouble ≠ .nan → a.le b = (!a.gt b) ∧ a.ge b = (!a.lt b) ∧
          (a.lt b = true ↔ a.toDouble.position < b.toDouble.position)))) ∧
      ∀ s t u : String,
        ((text s).lt (text t) = true ↔ Text.units s.toList < Text.units t.toList) ∧
        (text s).lt (text s) = false ∧
        ((text s).lt (text t) = true → (text t).lt (text u) = true →
          (text s).lt (text u) = true) ∧
        [(text s).lt (text t), (text s).strictEq (text t), (text t).lt (text s)].count true = 1 ∧
        (text s).le (text t) = ((text s).lt (text t) || (text s).strictEq (text t)) := by
  have hunits (s t : String) :
      (text s).lt (text t) = true ↔ Text.units s.toList < Text.units t.toList := by
    rw [lt_text, Ordering.isLT_iff_eq_lt, Text.unitOrder_eq_lt]
  refine ⟨fun a b => ⟨gt_eq_lt a b, ge_eq_le a b, fun h => ⟨?_, fun ha hb => ?_⟩⟩,
    fun s t u => ⟨hunits s t, ?_, ?_, ?_, ?_⟩⟩
  · exact fun hnan => not_related ((compare?_eq_none h).2 hnan)
  · have hcompare := compare?_of_not_isText h
    rw [Double.compare?_eq_compare ha hb] at hcompare
    refine ⟨le_eq_not_gt hcompare, ge_eq_not_lt hcompare, ?_⟩
    rw [lt, hcompare, Option.any_some, Ordering.isLT_iff_eq_lt, Int.compare_eq_lt]
  · exact eq_false_of_ne_true fun hlt => List.lt_irrefl _ ((hunits s s).1 hlt)
  · intro hst htu
    exact (hunits s u).2 (List.lt_trans ((hunits s t).1 hst) ((hunits t u).1 htu))
  · rw [lt_text, strictEq_text, lt_text_swap]
    cases Text.unitOrder s.toList t.toList <;> rfl
  · rw [le_text, lt_text, strictEq_text]
    cases Text.unitOrder s.toList t.toList <;> rfl

theorem relations_agree_of_emoji :
    (¬ ((integer 1).isText ∧ null.isText) ∧ (integer 1).toDouble ≠ .nan ∧ null.toDouble ≠ .nan ∧
      (integer 1).le null = !(integer 1).gt null) ∧
    (undefined.toDouble = .nan ∧ undefined.ge (integer 1) = false) ∧
    (text "a").lt (text "😀") = true ∧ (text "😀").lt (text "\uff61") = true ∧
      (text "a").lt (text "\uff61") = true := by
  have hone : (integer 1).toDouble ≠ .nan := Number.toDouble_ne_nan (.integer 1)
  have hfirst : (text "a").lt (text "😀") = true := by decide
  have hsecond : (text "😀").lt (text "\uff61") = true := by decide
  obtain ⟨hvalues, htexts⟩ := relations_agree
  refine ⟨⟨by decide, hone, by decide, ?_⟩, ⟨rfl, ?_⟩, hfirst, hsecond, ?_⟩
  · exact (((hvalues (integer 1) null).2.2 (by decide)).2 hone (by decide)).1
  · exact ((hvalues undefined (integer 1)).2.2 (by decide)).1 (.inl rfl) ge (by simp)
  · exact (htexts "a" "😀" "\uff61").2.2.1 hfirst hsecond

end Value

end TemplateExpr
