import TemplateExpr.Template.Placeholder

namespace TemplateExpr

variable {d cs a b l m : List Char}

-- In the text with the delimiter after it, the delimiter begins nowhere but at the end of the text.
def FirstAtEnd (d l : List Char) : Prop :=
  ∀ a b, l ++ d = a ++ d ++ b → a = l

-- The same for the occurrences that begin behind the first character.
def FirstAtEndBehindOne (d l : List Char) : Prop :=
  ∀ a b, a ≠ [] → l ++ d = a ++ d ++ b → a = l

theorem firstAtEnd_nil (d : List Char) : FirstAtEnd d [] := by
  intro a b h
  have hlen := congrArg List.length h
  simp only [List.nil_append, List.length_append] at hlen
  exact List.eq_nil_of_length_eq_zero (by omega)

theorem FirstAtEnd.of_append (h : FirstAtEnd d (m ++ l)) : FirstAtEnd d l := by
  intro a b hab
  have hm := h (m ++ a) b (by simp [hab])
  exact List.append_cancel_left hm

theorem firstAtEnd_cons {c : Char} :
    FirstAtEnd d (c :: l) ↔ ¬ d <+: c :: (l ++ d) ∧ FirstAtEnd d l := by
  constructor
  · intro h
    refine ⟨?_, FirstAtEnd.of_append (m := [c]) h⟩
    rintro ⟨b, hb⟩
    have := h [] b (by simpa using hb.symm)
    cases this
  · rintro ⟨hpre, h⟩ a b hab
    cases a with
    | nil => exact absurd ⟨b, by simpa using hab.symm⟩ hpre
    | cons c' a =>
        simp only [List.cons_append, List.cons.injEq] at hab
        rw [hab.1, h a b hab.2]

theorem firstAtEndBehindOne_cons {c : Char} :
    FirstAtEndBehindOne d (c :: l) ↔ FirstAtEnd d l := by
  constructor
  · intro h a b hab
    have := h (c :: a) b (List.cons_ne_nil c a) (by simp [hab])
    simpa using this
  · intro h a b hne hab
    cases a with
    | nil => exact absurd rfl hne
    | cons c' a =>
        simp only [List.cons_append, List.cons.injEq] at hab
        rw [hab.1, h a b hab.2]

theorem firstAtEnd_of_splitAtFirst (h : splitAtFirst d cs = some (a, b)) : FirstAtEnd d a := by
  fun_induction splitAtFirst d cs generalizing a b with
  | case1 =>
      cases h
      exact firstAtEnd_nil d
  | case2 => cases h
  | case3 =>
      cases h
      exact firstAtEnd_nil d
  | case4 c cs hp ih =>
      obtain ⟨⟨a, b⟩, hs, h⟩ := Option.map_eq_some_iff.1 h
      cases h
      refine firstAtEnd_cons.2 ⟨fun hpre => hp ?_, ih hs⟩
      rw [List.isPrefixOf_iff_prefix, append_of_splitAtFirst hs]
      exact hpre.trans ⟨b, by simp⟩

theorem splitAtFirst_append_self (d b : List Char) : splitAtFirst d (d ++ b) = some ([], b) := by
  cases h : d ++ b with
  | nil =>
      obtain ⟨rfl, rfl⟩ := List.append_eq_nil_iff.1 h
      rfl
  | cons c cs =>
      have hp : d.isPrefixOf (c :: cs) := List.isPrefixOf_iff_prefix.2 ⟨b, h⟩
      rw [splitAtFirst, if_pos hp, ← h, List.drop_left]

theorem splitAtFirst_of_firstAtEnd (h : FirstAtEnd d a) (b : List Char) :
    splitAtFirst d (a ++ d ++ b) = some (a, b) := by
  induction a with
  | nil => exact splitAtFirst_append_self d b
  | cons c a ih =>
      obtain ⟨hpre, h⟩ := firstAtEnd_cons.1 h
      have hp : ¬ d.isPrefixOf (c :: (a ++ d ++ b)) = true := by
        intro hp
        rw [List.isPrefixOf_iff_prefix] at hp
        have ha : c :: (a ++ d) <+: c :: (a ++ d ++ b) := ⟨b, by simp⟩
        have hlen : d.length ≤ (c :: (a ++ d)).length := by
          simp only [List.length_cons, List.length_append]
          omega
        exact hpre (List.prefix_of_prefix_length_le hp ha hlen)
      rw [List.cons_append, List.cons_append, splitAtFirst, if_neg hp, ih h]
      rfl

theorem splitAtFirst_eq_some :
    splitAtFirst d cs = some (a, b) ↔ cs = a ++ d ++ b ∧ FirstAtEnd d a := by
  constructor
  · intro h
    exact ⟨append_of_splitAtFirst h, firstAtEnd_of_splitAtFirst h⟩
  · rintro ⟨rfl, h⟩
    exact splitAtFirst_of_firstAtEnd h b

theorem splitAtFirst_eq_none : splitAtFirst d cs = none ↔ ∀ a b, cs ≠ a ++ d ++ b := by
  constructor
  · intro h a b hab
    fun_induction splitAtFirst d cs generalizing a with
    | case1 => cases h
    | case2 hd =>
        simp_all
    | case3 => cases h
    | case4 c cs hp ih =>
        rw [Option.map_eq_none_iff] at h
        cases a with
        | nil => exact hp (List.isPrefixOf_iff_prefix.2 ⟨b, by simpa using hab.symm⟩)
        | cons c' a =>
            simp only [List.cons_append, List.cons.injEq] at hab
            exact ih h a hab.2
  · intro h
    cases hs : splitAtFirst d cs with
    | none => rfl
    | some p => exact absurd (append_of_splitAtFirst hs) (h p.1 p.2)

theorem length_le_of_firstAtEnd {a' b' : List Char} (h : FirstAtEnd d a)
    (hab : a ++ d ++ b = a' ++ d ++ b') : a.length ≤ a'.length := by
  refine Nat.le_of_not_lt fun hlt => ?_
  have ha : a' ++ d <+: a ++ d := by
    refine List.prefix_of_prefix_length_le ⟨b', hab.symm⟩ ⟨b, rfl⟩ ?_
    simp only [List.length_append]
    omega
  obtain ⟨m, hm⟩ := ha
  rw [h a' m hm.symm] at hlt
  exact Nat.lt_irrefl _ hlt

namespace Delimiters

variable {d : Delimiters} {cs : List Char}

theorem placeholder?_eq_some {p : Placeholder} :
    d.placeholder? cs = some p ↔
      cs = p.before ++ d.opening ++ p.inner ++ d.closing ++ p.after ∧
        FirstAtEnd d.opening p.before ∧ p.inner ≠ [] ∧ FirstAtEndBehindOne d.closing p.inner := by
  constructor
  · intro h
    obtain ⟨hne, hcs⟩ := append_of_placeholder? h
    unfold placeholder? at h
    split at h
    · rename_i hs
      obtain ⟨q, hq, rfl⟩ := Option.map_eq_some_iff.1 h
      have hclose := firstAtEnd_of_splitAtFirst hq
      exact ⟨hcs, firstAtEnd_of_splitAtFirst hs, hne, firstAtEndBehindOne_cons.2 hclose⟩
    · cases h
  · rintro ⟨hcs, hopen, hne, hclose⟩
    obtain ⟨before, inner, after⟩ := p
    obtain ⟨c, inner, rfl⟩ := List.exists_cons_of_ne_nil hne
    have ho : splitAtFirst d.opening cs = some (before, c :: (inner ++ d.closing ++ after)) :=
      splitAtFirst_eq_some.2 ⟨by simp [hcs], hopen⟩
    have hc := splitAtFirst_of_firstAtEnd (firstAtEndBehindOne_cons.1 hclose) after
    simp only [placeholder?, ho, hc, Option.map_some]

theorem placeholder?_eq_none :
    d.placeholder? cs = none ↔
      ∀ a m b, m ≠ [] → cs ≠ a ++ d.opening ++ m ++ d.closing ++ b := by
  constructor
  · intro h a m b hm hcs
    obtain ⟨c, m, rfl⟩ := List.exists_cons_of_ne_nil hm
    cases ho : splitAtFirst d.opening cs with
    | none => exact splitAtFirst_eq_none.1 ho a (c :: m ++ d.closing ++ b) (by simp [hcs])
    | some p =>
        obtain ⟨before, rest⟩ := p
        obtain ⟨hsplit, hfirst⟩ := splitAtFirst_eq_some.1 ho
        -- The first opening delimiter leaves at least what stands behind the given one.
        have heq : before ++ d.opening ++ rest = a ++ d.opening ++ (c :: m ++ d.closing ++ b) := by
          rw [← hsplit, hcs]
          simp
        have hle := length_le_of_firstAtEnd hfirst heq
        have hsuffix : c :: m ++ d.closing ++ b <:+ rest := by
          refine List.suffix_of_suffix_length_le ⟨_, rfl⟩ ⟨before ++ d.opening, heq⟩ ?_
          have hlen := congrArg List.length heq
          simp only [List.length_append] at hlen ⊢
          omega
        obtain ⟨x, hx⟩ := hsuffix
        cases rest with
        | nil => simp at hx
        | cons c' rest =>
            simp only [placeholder?, ho, Option.map_eq_none_iff] at h
            cases x with
            | nil =>
                simp only [List.nil_append, List.cons_append, List.cons.injEq] at hx
                exact splitAtFirst_eq_none.1 h m b hx.2.symm
            | cons c'' x =>
                simp only [List.cons_append, List.cons.injEq] at hx
                exact splitAtFirst_eq_none.1 h (x ++ c :: m) b (by simp [← hx.2])
  · intro h
    cases hp : d.placeholder? cs with
    | none => rfl
    | some p =>
        obtain ⟨hne, hcs⟩ := append_of_placeholder? hp
        exact absurd hcs (h p.before p.inner p.after hne)

def Occurs (d : Delimiters) (cs : List Char) : Prop :=
  ∃ a m b, m ≠ [] ∧ cs = a ++ d.opening ++ m ++ d.closing ++ b

theorem not_occurs : ¬ d.Occurs cs ↔ d.placeholder? cs = none := by
  rw [placeholder?_eq_none]
  constructor
  · exact fun h a m b hm hcs => h ⟨a, m, b, hm, hcs⟩
  · rintro h ⟨a, m, b, hm, hcs⟩
    exact h a m b hm hcs

end Delimiters

end TemplateExpr
