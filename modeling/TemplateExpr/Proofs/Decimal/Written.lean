import TemplateExpr.Proofs.Token.Number

namespace TemplateExpr.Numeral

def IsDigits (ds : List Char) : Prop :=
  ds ≠ [] ∧ ∀ d ∈ ds, d.isDigit = true

inductive IsSign : Bool → List Char → Prop
  | absent : IsSign false []
  | plus : IsSign false ['+']
  | minus : IsSign true ['-']

inductive IsSignificand : Decimal → List Char → Prop
  | whole {ds} : IsDigits ds → IsSignificand ⟨digitValue ds, 0⟩ ds
  | pointed {ds fs} : IsDigits ds → fs = [] ∨ IsDigits fs →
      IsSignificand ⟨digitValue (ds ++ fs), -fs.length⟩ (ds ++ '.' :: fs)
  | fraction {fs} : IsDigits fs → IsSignificand ⟨digitValue fs, -fs.length⟩ ('.' :: fs)

inductive IsExponent : Int → List Char → Prop
  | absent : IsExponent 0 []
  | present {e negative s ds} : e = 'e' ∨ e = 'E' → IsSign negative s → IsDigits ds →
      IsExponent (if negative then -digitValue ds else digitValue ds) (e :: (s ++ ds))

inductive Written : Numeral → List Char → Prop
  | mk {negative s d m e p} : IsSign negative s → IsSignificand d m → IsExponent e p →
      Written ⟨negative, ⟨d.coefficient, d.exponent + e⟩⟩ (s ++ (m ++ p))

section

variable {negative : Bool} {d : Decimal} {e : Int} {c : Char} {s m p ds fs cs rest : List Char}

theorem isSign_sign (cs : List Char) : ∃ s, IsSign (sign cs).1 s ∧ cs = s ++ (sign cs).2 := by
  unfold sign
  split
  · exact ⟨_, .plus, rfl⟩
  · exact ⟨_, .minus, rfl⟩
  · exact ⟨_, .absent, rfl⟩

theorem IsSign.sign_append (h : IsSign negative s) (hplus : c ≠ '+') (hminus : c ≠ '-') :
    sign (s ++ c :: cs) = (negative, c :: cs) := by
  cases h with
  | absent => simp [sign, hplus, hminus]
  | plus => rfl
  | minus => rfl

theorem ne_sign_of_isDigit (h : c.isDigit = true) : c ≠ '+' ∧ c ≠ '-' := by
  constructor
  · rintro rfl
    exact absurd h (by decide)
  · rintro rfl
    exact absurd h (by decide)

theorem IsDigits.sign_append (h : IsDigits ds) (hs : IsSign negative s) (rest : List Char) :
    sign (s ++ (ds ++ rest)) = (negative, ds ++ rest) := by
  obtain ⟨hne, hds⟩ := h
  obtain ⟨d, ds, rfl⟩ := List.exists_cons_of_ne_nil hne
  obtain ⟨hplus, hminus⟩ := ne_sign_of_isDigit (hds d List.mem_cons_self)
  exact hs.sign_append hplus hminus

theorem exponent?_eq_some : exponent? cs = some e ↔ IsExponent e cs := by
  constructor
  · intro h
    unfold exponent? at h
    split at h
    · cases h
      exact .absent
    · rename_i c cs
      obtain ⟨s, hs, hcs⟩ := isSign_sign cs
      generalize sign cs = r at h hs hcs
      obtain ⟨negative, ds⟩ := r
      simp only [Bool.and_eq_true, Bool.or_eq_true, beq_iff_eq, Bool.not_eq_true',
        List.isEmpty_eq_false_iff, List.all_eq_true, Option.ite_none_right_eq_some,
        Option.some.injEq] at h
      obtain ⟨⟨⟨he, hne⟩, hds⟩, rfl⟩ := h
      rw [hcs]
      exact .present he hs ⟨hne, hds⟩
  · intro h
    cases h with
    | absent => rfl
    | @present c negative s ds hc hs hds =>
        have hsign := hds.sign_append hs []
        rw [List.append_nil] at hsign
        have hall : ds.all Char.isDigit = true := List.all_eq_true.2 hds.2
        simp [exponent?, hsign, hc, hds.1, hall]

theorem IsExponent.ends (h : IsExponent e p) :
    Token.startsWith Char.isDigit p = false ∧ ∀ cs, p ≠ '.' :: cs := by
  cases h with
  | absent => exact ⟨rfl, by simp⟩
  | present he => rcases he with rfl | rfl <;> exact ⟨rfl, by simp⟩

theorem mantissa_whole (hds : ∀ d ∈ ds, d.isDigit = true)
    (h : Token.startsWith Char.isDigit rest = false) (hpoint : ∀ cs, rest ≠ '.' :: cs) :
    mantissa (ds ++ rest) = (ds, [], rest) := by
  rw [mantissa, Token.takeWhile_append_of_startsWith hds h,
    Token.dropWhile_append_of_startsWith hds h]
  split
  · exact absurd rfl (hpoint _)
  · rfl

theorem mantissa_pointed (hds : ∀ d ∈ ds, d.isDigit = true) (hfs : ∀ d ∈ fs, d.isDigit = true)
    (h : Token.startsWith Char.isDigit rest = false) :
    mantissa (ds ++ '.' :: (fs ++ rest)) = (ds, fs, rest) := by
  have hpoint : Token.startsWith Char.isDigit ('.' :: (fs ++ rest)) = false := rfl
  rw [mantissa, Token.takeWhile_append_of_startsWith hds hpoint,
    Token.dropWhile_append_of_startsWith hds hpoint]
  simp only [Token.takeWhile_append_of_startsWith hfs h, Token.dropWhile_append_of_startsWith hfs h]

theorem IsSignificand.mantissa_append (hm : IsSignificand d m) (hp : IsExponent e p) :
    ∃ ds fs, mantissa (m ++ p) = (ds, fs, p) ∧ (ds.isEmpty && fs.isEmpty) = false ∧
      d = ⟨digitValue (ds ++ fs), -fs.length⟩ := by
  obtain ⟨hend, hpoint⟩ := hp.ends
  cases hm with
  | whole h =>
      refine ⟨m, [], mantissa_whole h.2 hend hpoint, ?_, ?_⟩
      · simp [h.1]
      · simp
  | @pointed ds fs h hf =>
      have hfs : ∀ d ∈ fs, d.isDigit = true := by
        rcases hf with rfl | hf
        · exact List.forall_mem_nil _
        · exact hf.2
      refine ⟨ds, fs, ?_, ?_, rfl⟩
      · rw [List.append_assoc]
        exact mantissa_pointed h.2 hfs hend
      · simp [h.1]
  | @fraction fs h =>
      exact ⟨[], fs, mantissa_pointed (List.forall_mem_nil _) h.2 hend, by simp [h.1], rfl⟩

theorem IsSignificand.sign_append (hm : IsSignificand d m) (hs : IsSign negative s) :
    sign (s ++ (m ++ p)) = (negative, m ++ p) := by
  cases hm with
  | whole h => exact h.sign_append hs _
  | pointed h hf =>
      rw [List.append_assoc]
      exact h.sign_append hs _
  | fraction h => exact hs.sign_append (by decide) (by decide)

theorem isSignificand_of_mantissa (h : mantissa cs = (ds, fs, rest))
    (hne : ¬ (ds = [] ∧ fs = [])) :
    ∃ m, IsSignificand ⟨digitValue (ds ++ fs), -fs.length⟩ m ∧ cs = m ++ rest := by
  have hdigits (cs : List Char) : ∀ d ∈ cs.takeWhile Char.isDigit, d.isDigit = true :=
    List.all_eq_true.1 List.all_takeWhile
  have hcs := List.takeWhile_append_dropWhile (p := Char.isDigit) (l := cs)
  unfold mantissa at h
  split at h
  · rename_i after hafter
    cases h
    rw [hafter, ← List.takeWhile_append_dropWhile (p := Char.isDigit) (l := after)] at hcs
    by_cases hds : cs.takeWhile Char.isDigit = []
    · have hfs : after.takeWhile Char.isDigit ≠ [] := fun hfs => hne ⟨hds, hfs⟩
      rw [hds] at hcs ⊢
      exact ⟨_, .fraction ⟨hfs, hdigits after⟩, hcs.symm⟩
    · have hfs := Decidable.em (after.takeWhile Char.isDigit = [])
      refine ⟨_, .pointed ⟨hds, hdigits cs⟩ (hfs.imp_right fun hfs => ⟨hfs, hdigits after⟩), ?_⟩
      rw [List.append_assoc]
      exact hcs.symm
  · cases h
    refine ⟨_, ?_, hcs.symm⟩
    rw [List.append_nil]
    exact .whole ⟨fun hds => hne ⟨hds, rfl⟩, hdigits cs⟩

theorem ofText?_eq_some {n : Numeral} : ofText? cs = some n ↔ Written n cs := by
  constructor
  · intro h
    obtain ⟨s, hs, hcs⟩ := isSign_sign cs
    unfold ofText? at h
    generalize sign cs = r at h hs hcs
    obtain ⟨negative, cs'⟩ := r
    dsimp only at h hs hcs
    rcases hmantissa : mantissa cs' with ⟨ds, fs, rest⟩
    rw [hmantissa] at h
    dsimp only at h
    split at h
    · cases h
    · rename_i hne
      obtain ⟨e, he, rfl⟩ := Option.map_eq_some_iff.1 h
      obtain ⟨m, hm, rfl⟩ := isSignificand_of_mantissa hmantissa (by simpa using hne)
      rw [hcs, Int.sub_eq_add_neg, Int.add_comm]
      exact .mk hs hm (exponent?_eq_some.1 he)
  · rintro ⟨hs, hm, hp⟩
    obtain ⟨ds, fs, hmantissa, hne, rfl⟩ := hm.mantissa_append hp
    have he := exponent?_eq_some.2 hp
    rw [ofText?, hm.sign_append hs]
    simp only [hmantissa, hne, he, Option.map_some, Bool.false_eq_true, if_false]
    rw [Int.sub_eq_add_neg, Int.add_comm]

end

end TemplateExpr.Numeral
