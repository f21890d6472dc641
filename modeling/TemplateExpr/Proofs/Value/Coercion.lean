import TemplateExpr.Proofs.Decimal.Rounding
import TemplateExpr.Proofs.Decimal.Written
import TemplateExpr.Value.Number

namespace TemplateExpr.Text

open Numeral

inductive Denotes (cs : List Char) : Double → Prop
  | blank : cs = [] → Denotes cs (.zero false)
  | infinity {negative s} : IsSign negative s → cs = s ++ "Infinity".toList →
      Denotes cs (.infinite negative)
  | numeral {n} : Written n cs →
      Denotes cs (.ofRatio n.negative n.magnitude.numerator n.magnitude.denominator)
  | other : cs ≠ [] → (∀ negative s, IsSign negative s → cs ≠ s ++ "Infinity".toList) →
      (∀ n, ¬ Written n cs) → Denotes cs .nan

def IsInfinityName (w : List Char) : Prop :=
  w.map Char.toLower = "inf".toList ∨ w.map Char.toLower = "infinity".toList

-- A sign before a name of infinity in another spelling than the proper one.
def SignedInfinity (negative : Bool) (cs : List Char) : Prop :=
  ∃ s w, cs = s ++ w ∧ s ≠ [] ∧ IsSign negative s ∧ IsInfinityName w ∧ w ≠ "Infinity".toList

section

variable {negative negative' : Bool} {n : Numeral} {c : Char} {s s' w cs : List Char} {x y : Double}

theorem isInfinityName_proper : IsInfinityName "Infinity".toList :=
  .inr (by decide)

theorem toLower_of_isDigit (h : c.isDigit = true) : c.toLower = c := by
  have hle : c.val ≤ 57 := by
    simp only [Char.isDigit, Bool.and_eq_true, decide_eq_true_eq] at h
    exact h.2
  unfold Char.toLower
  exact dif_neg fun hu => absurd (UInt32.le_trans hu.1 hle) (by decide)

theorem IsInfinityName.exists_cons (h : IsInfinityName w) :
    ∃ c cs, w = c :: cs ∧ c.isDigit = false ∧ c ≠ '.' ∧ c ≠ '+' ∧ c ≠ '-' := by
  have hhead : w.head?.map Char.toLower = some 'i' := by
    rw [← List.head?_map]
    rcases h with h | h
    · rw [h]; rfl
    · rw [h]; rfl
  obtain ⟨c, hc, hlower⟩ := Option.map_eq_some_iff.1 hhead
  obtain ⟨cs, rfl⟩ := List.head?_eq_some_iff.1 hc
  have hdigit : ¬ c.isDigit = true := by
    intro hd
    rw [toLower_of_isDigit hd] at hlower
    rw [hlower] at hd
    exact absurd hd (by decide)
  refine ⟨c, cs, rfl, eq_false_of_ne_true hdigit, ?_, ?_, ?_⟩
  all_goals
    rintro rfl
    exact absurd hlower (by decide)

theorem IsInfinityName.sign_append (hw : IsInfinityName w) (hs : IsSign negative s) :
    sign (s ++ w) = (negative, w) := by
  obtain ⟨c, cs, rfl, -, -, hplus, hminus⟩ := hw.exists_cons
  exact hs.sign_append hplus hminus

theorem IsInfinityName.not_written (hw : IsInfinityName w) (hs : IsSign negative s) :
    ¬ Written n (s ++ w) := by
  intro h
  have hn := ofText?_eq_some.2 h
  obtain ⟨c, cs, rfl, hdigit, hpoint, -, -⟩ := hw.exists_cons
  have hmantissa : mantissa (c :: cs) = ([], [], c :: cs) :=
    mantissa_whole (List.forall_mem_nil _) hdigit (by simp [hpoint])
  rw [ofText?, hw.sign_append hs] at hn
  simp [hmantissa] at hn

theorem not_written_nil : ¬ Written n [] := by
  intro h
  cases (ofText?_eq_some.2 h)

theorem infinity?_eq_some : infinity? cs = some x ↔
    ∃ negative, x = .infinite negative ∧
      ((∃ s, IsSign negative s ∧ cs = s ++ "Infinity".toList) ∨ SignedInfinity negative cs) := by
  constructor
  · intro h
    obtain ⟨s, hs, hcs⟩ := isSign_sign cs
    unfold infinity? at h
    rcases hsign : sign cs with ⟨negative, w⟩
    rw [hsign] at h hs hcs
    simp only [Option.ite_none_right_eq_some, Option.some.injEq] at h hs hcs
    obtain ⟨hname, rfl⟩ := h
    refine ⟨negative, rfl, ?_⟩
    rcases hname with ⟨hname, hlength⟩ | hproper
    · by_cases hw : w = "Infinity".toList
      · exact .inl ⟨s, hs, hw ▸ hcs⟩
      · refine .inr ⟨s, w, hcs, ?_, hs, hname, hw⟩
        rintro rfl
        simp [hcs] at hlength
    · have hplain : sign "Infinity".toList = (false, "Infinity".toList) := rfl
      rw [hproper, hplain] at hsign
      cases hsign
      exact .inl ⟨[], .absent, hproper⟩
  · rintro ⟨negative, rfl, ⟨s, hs, rfl⟩ | ⟨s, w, rfl, hne, hs, hname, -⟩⟩
    · cases hs <;> rfl
    · have hlength : w.length < (s ++ w).length := by
        rw [List.length_append]
        exact Nat.lt_add_of_pos_left (List.length_pos_iff.2 hne)
      rw [infinity?, hname.sign_append hs]
      exact if_pos (.inl ⟨hname, hlength⟩)

theorem Denotes.unique (hx : Denotes cs x) (hy : Denotes cs y) : x = y := by
  cases hx with
  | blank h =>
      subst h
      cases hy with
      | blank => rfl
      | infinity _ h => simp at h
      | numeral hn => exact absurd hn not_written_nil
      | other h => exact absurd rfl h
  | infinity hs h =>
      subst h
      cases hy with
      | blank h => simp at h
      | infinity hs' h =>
          have hsign := isInfinityName_proper.sign_append hs
          rw [h, isInfinityName_proper.sign_append hs'] at hsign
          cases hsign
          rfl
      | numeral hn => exact absurd hn (isInfinityName_proper.not_written hs)
      | other _ h => exact absurd rfl (h _ _ hs)
  | numeral hn =>
      cases hy with
      | blank h => exact absurd (h ▸ hn) not_written_nil
      | infinity hs h => exact absurd (h ▸ hn) (isInfinityName_proper.not_written hs)
      | numeral hn' =>
          cases (ofText?_eq_some.2 hn).symm.trans (ofText?_eq_some.2 hn')
          rfl
      | other _ _ h => exact absurd hn (h _)
  | other hne hproper hwritten =>
      cases hy with
      | blank h => exact absurd h hne
      | infinity hs h => exact absurd h (hproper _ _ hs)
      | numeral hn => exact absurd hn (hwritten _)
      | other => rfl

theorem SignedInfinity.denotes_nan (h : SignedInfinity negative cs) : Denotes cs .nan := by
  obtain ⟨s, w, rfl, hne, hs, hname, hproper⟩ := h
  refine .other (by simp [hne]) ?_ fun n => hname.not_written hs
  intro negative' s' hs' heq
  have hsign := hname.sign_append hs
  rw [heq, isInfinityName_proper.sign_append hs'] at hsign
  cases hsign
  exact hproper rfl

theorem SignedInfinity.infinity? (h : SignedInfinity negative cs) :
    infinity? cs = some (.infinite negative) :=
  infinity?_eq_some.2 ⟨negative, rfl, .inr h⟩

variable {t : String}

theorem toDouble_of_infinity? (h : infinity? (trim t.toList) = some x) : toDouble t = x := by
  have hne : (trim t.toList).isEmpty = false := by
    cases hcs : trim t.toList with
    | nil =>
        rw [hcs] at h
        cases h
    | cons c cs => rfl
  simp only [toDouble, hne, h, Bool.false_eq_true, if_false]

theorem denotes_toDouble (h : ∀ negative, ¬ SignedInfinity negative (trim t.toList)) :
    Denotes (trim t.toList) (toDouble t) := by
  rw [toDouble]
  generalize trim t.toList = cs at h
  split
  · rename_i hempty
    exact .blank (List.isEmpty_iff.1 hempty)
  · rename_i hempty
    have hne : cs ≠ [] := fun hnil => hempty (List.isEmpty_iff.2 hnil)
    split
    · rename_i hinfinity
      obtain ⟨negative, rfl, ⟨s, hs, hcs⟩ | hsigned⟩ := infinity?_eq_some.1 hinfinity
      · exact .infinity hs hcs
      · exact absurd hsigned (h negative)
    · rename_i n _ hn
      rw [Numeral.toDouble, Decimal.toDouble_eq_ofRatio]
      exact .numeral (ofText?_eq_some.1 hn)
    · rename_i hinfinity hn
      refine .other hne (fun negative s hs hcs => ?_) fun n hwritten => ?_
      · rw [infinity?_eq_some.2 ⟨negative, rfl, .inl ⟨s, hs, hcs⟩⟩] at hinfinity
        cases hinfinity
      · rw [ofText?_eq_some.2 hwritten] at hn
        cases hn

end

theorem denotes_toDouble_iff (s : String) :
    (∃! x, Denotes (trim s.toList) x) ∧
      (Denotes (trim s.toList) (Value.text s).toDouble ↔
        ∀ negative, ¬ SignedInfinity negative (trim s.toList)) ∧
      ∀ negative, SignedInfinity negative (trim s.toList) ↔
        Denotes (trim s.toList) .nan ∧ (Value.text s).toDouble = .infinite negative := by
  change _ ∧ (Denotes _ (toDouble s) ↔ _) ∧ ∀ negative, _ ↔ _ ∧ toDouble s = _
  have hinfinite {negative : Bool} (h : SignedInfinity negative (trim s.toList)) :
      Denotes (trim s.toList) .nan ∧ toDouble s = .infinite negative :=
    ⟨h.denotes_nan, toDouble_of_infinity? h.infinity?⟩
  have hdenotes : Denotes (trim s.toList) (toDouble s) →
      ∀ negative, ¬ SignedInfinity negative (trim s.toList) := by
    intro h negative hsigned
    obtain ⟨hnan, hvalue⟩ := hinfinite hsigned
    rw [hvalue] at h
    cases h.unique hnan
  refine ⟨?_, ⟨hdenotes, denotes_toDouble⟩, fun negative => ⟨hinfinite, ?_⟩⟩
  · by_cases h : ∀ negative, ¬ SignedInfinity negative (trim s.toList)
    · exact ⟨_, denotes_toDouble h, fun y hy => hy.unique (denotes_toDouble h)⟩
    · simp only [not_forall, not_not] at h
      obtain ⟨negative, hsigned⟩ := h
      exact ⟨_, hsigned.denotes_nan, fun y hy => hy.unique hsigned.denotes_nan⟩
  · rintro ⟨hnan, hvalue⟩
    by_contra hnot
    have hother : ∀ b, ¬ SignedInfinity b (trim s.toList) := by
      intro b hb
      have hb' := (hinfinite hb).2
      rw [hvalue] at hb'
      cases hb'
      exact hnot hb
    have hd := denotes_toDouble hother
    rw [hvalue] at hd
    cases hd.unique hnan

theorem toDouble_of_plus_inf :
    Denotes (trim "+inf".toList) .nan ∧ (Value.text "+inf").toDouble = .infinite false := by
  have hsigned : SignedInfinity false (trim "+inf".toList) :=
    ⟨['+'], "inf".toList, by decide, by decide, .plus, .inl (by decide), by decide⟩
  exact ⟨hsigned.denotes_nan, toDouble_of_infinity? hsigned.infinity?⟩

end TemplateExpr.Text
