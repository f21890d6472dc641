import TemplateExpr.Token.Numeric

namespace TemplateExpr.Token

section

variable {p : Char → Bool} {cs rest : List Char}

theorem takeWhile_append_of_startsWith (hcs : ∀ c ∈ cs, p c = true)
    (h : startsWith p rest = false) : (cs ++ rest).takeWhile p = cs := by
  rw [List.takeWhile_append_of_pos hcs]
  cases rest with
  | nil => simp
  | cons c rest =>
      have hc : ¬ p c = true := by simpa [startsWith] using h
      rw [List.takeWhile_cons_of_neg hc, List.append_nil]

theorem dropWhile_append_of_startsWith (hcs : ∀ c ∈ cs, p c = true)
    (h : startsWith p rest = false) : (cs ++ rest).dropWhile p = rest := by
  rw [List.dropWhile_append_of_pos hcs]
  cases rest with
  | nil => rfl
  | cons c rest =>
      have hc : ¬ p c = true := by simpa [startsWith] using h
      exact List.dropWhile_cons_of_neg hc

theorem startsWith_mono {q : Char → Bool} (hpq : ∀ c, q c = true → p c = true)
    (h : startsWith p rest = false) : startsWith q rest = false := by
  cases rest with
  | nil => rfl
  | cons c rest =>
      simp only [startsWith, List.head?_cons, Option.any_some] at h ⊢
      grind

theorem startsWith_dropWhile (p : Char → Bool) (cs : List Char) :
    startsWith p (cs.dropWhile p) = false := by
  have h := List.head?_dropWhile_not p cs
  cases hcs : cs.dropWhile p with
  | nil => rfl
  | cons c rest =>
      rw [hcs] at h
      exact h

theorem startsWith_append (h : startsWith p cs = true) : startsWith p (cs ++ rest) = true := by
  cases cs with
  | nil => cases h
  | cons c cs => exact h

end

theorem isIdentifierPart_of_isDigit {c : Char} (h : c.isDigit = true) :
    Text.isIdentifierPart c = true := by
  simp [Text.isIdentifierPart, h]

inductive IsMantissa : List Char → Prop
  | whole {ds} : (∀ d ∈ ds, d.isDigit = true) → IsMantissa ds
  | pointed {ds fs} : (∀ d ∈ ds, d.isDigit = true) → (∀ d ∈ fs, d.isDigit = true) → fs ≠ [] →
      IsMantissa (ds ++ '.' :: fs)

inductive IsPower : List Char → Prop
  | absent : IsPower []
  | present {e sign ps} : e = 'e' ∨ e = 'E' → sign ∈ [[], ['+'], ['-']] →
      (∀ d ∈ ps, d.isDigit = true) → ps ≠ [] → IsPower (e :: (sign ++ ps))

section

variable {m p ds fs rest : List Char}

theorem startsWith_of_digits (h : ∀ d ∈ ds, d.isDigit = true) (hne : ds ≠ []) :
    startsWith Char.isDigit ds = true := by
  cases ds with
  | nil => exact (hne rfl).elim
  | cons d ds => exact h d List.mem_cons_self

theorem mantissaLexeme_digits (h : ∀ d ∈ ds, d.isDigit = true) (rest : List Char) :
    mantissaLexeme (ds ++ rest) = (ds ++ (mantissaLexeme rest).1, (mantissaLexeme rest).2) := by
  simp only [mantissaLexeme, List.takeWhile_append_of_pos h, List.dropWhile_append_of_pos h]
  split
  · split <;> simp
  · rfl

theorem mantissaLexeme_eq (cs : List Char) : mantissaLexeme cs =
    (cs.takeWhile Char.isDigit ++ (mantissaLexeme (cs.dropWhile Char.isDigit)).1,
      (mantissaLexeme (cs.dropWhile Char.isDigit)).2) := by
  have hdigits : ∀ d ∈ cs.takeWhile Char.isDigit, d.isDigit = true :=
    List.all_eq_true.1 List.all_takeWhile
  have h := mantissaLexeme_digits hdigits (cs.dropWhile Char.isDigit)
  rwa [List.takeWhile_append_dropWhile] at h

theorem mantissaLexeme_of_point (h : startsWith Char.isDigit rest = true) :
    mantissaLexeme ('.' :: rest) =
      ('.' :: rest.takeWhile Char.isDigit, rest.dropWhile Char.isDigit) := by
  have hpoint : ¬ Char.isDigit '.' = true := by decide
  simp only [mantissaLexeme, List.takeWhile_cons_of_neg hpoint, List.dropWhile_cons_of_neg hpoint, h,
    if_true, List.nil_append]

theorem mantissaLexeme_point (h : ∀ d ∈ fs, d.isDigit = true) (hne : fs ≠ []) (rest : List Char) :
    mantissaLexeme ('.' :: (fs ++ rest)) =
      ('.' :: (fs ++ rest.takeWhile Char.isDigit), rest.dropWhile Char.isDigit) := by
  have hstarts : startsWith Char.isDigit (fs ++ rest) = true :=
    startsWith_append (startsWith_of_digits h hne)
  rw [mantissaLexeme_of_point hstarts, List.takeWhile_append_of_pos h,
    List.dropWhile_append_of_pos h]

theorem mantissaLexeme_of_ends (h : startsWith Char.isDigit rest = false)
    (hpoint : ∀ cs, rest = '.' :: cs → startsWith Char.isDigit cs = false) :
    mantissaLexeme rest = ([], rest) := by
  have htake := takeWhile_append_of_startsWith (List.forall_mem_nil _) h
  have hdrop := dropWhile_append_of_startsWith (List.forall_mem_nil _) h
  rw [List.nil_append] at htake hdrop
  rw [mantissaLexeme, htake, hdrop]
  split
  · rename_i cs
    rw [if_neg (by simp [hpoint cs rfl])]
  · rfl

theorem mantissaLexeme_isMantissa (cs : List Char) : IsMantissa (mantissaLexeme cs).1 := by
  have hdigits (ds : List Char) : ∀ d ∈ ds.takeWhile Char.isDigit, d.isDigit = true :=
    List.all_eq_true.1 List.all_takeWhile
  unfold mantissaLexeme
  split
  · rename_i rest _
    split
    · rename_i hstarts
      refine .pointed (hdigits cs) (hdigits rest) ?_
      cases rest with
      | nil => cases hstarts
      | cons d rest =>
          have hd : d.isDigit = true := hstarts
          simp [hd]
    · exact .whole (hdigits cs)
  · exact .whole (hdigits cs)

theorem IsMantissa.mantissaLexeme_append (hm : IsMantissa m)
    (h : startsWith Char.isDigit rest = false)
    (hpoint : ∀ cs, rest = '.' :: cs → startsWith Char.isDigit cs = false) :
    mantissaLexeme (m ++ rest) = (m, rest) := by
  cases hm with
  | whole hds =>
      rw [mantissaLexeme_digits hds, mantissaLexeme_of_ends h hpoint, List.append_nil]
  | pointed hds hfs hne =>
      have htake := takeWhile_append_of_startsWith (List.forall_mem_nil _) h
      have hdrop := dropWhile_append_of_startsWith (List.forall_mem_nil _) h
      rw [List.nil_append] at htake hdrop
      rw [List.append_assoc, List.cons_append, mantissaLexeme_digits hds,
        mantissaLexeme_point hfs hne, htake, hdrop, List.append_nil]

theorem mantissaLexeme_length_le (cs : List Char) :
    (mantissaLexeme cs).2.length ≤ cs.length := by
  have h := congrArg List.length (mantissaLexeme_append cs)
  rw [List.length_append] at h
  omega

theorem IsMantissa.length_le (hm : IsMantissa m) (rest : List Char) :
    (mantissaLexeme (m ++ rest)).2.length ≤ rest.length := by
  cases hm with
  | whole hds =>
      rw [mantissaLexeme_digits hds]
      exact mantissaLexeme_length_le rest
  | pointed hds hfs hne =>
      rw [List.append_assoc, List.cons_append, mantissaLexeme_digits hds,
        mantissaLexeme_point hfs hne]
      exact (List.dropWhile_suffix _).length_le

theorem exponentLexeme_present {e : Char} {sign ps : List Char} (he : e = 'e' ∨ e = 'E')
    (hsign : sign ∈ [[], ['+'], ['-']]) (hps : ∀ d ∈ ps, d.isDigit = true) (hne : ps ≠ [])
    (rest : List Char) :
    exponentLexeme (e :: (sign ++ (ps ++ rest))) =
      (e :: sign, ps ++ rest.takeWhile Char.isDigit, rest.dropWhile Char.isDigit) := by
  have hmark : exponentMark (e :: (sign ++ (ps ++ rest))) = (e :: sign, ps ++ rest) := by
    obtain ⟨d, ds, rfl⟩ := List.exists_cons_of_ne_nil hne
    have hd := hps d List.mem_cons_self
    have hplus : d ≠ '+' := by rintro rfl; exact absurd hd (by decide)
    have hminus : d ≠ '-' := by rintro rfl; exact absurd hd (by decide)
    simp only [List.mem_cons, List.not_mem_nil, or_false] at hsign
    rcases hsign with rfl | rfl | rfl <;> simp [exponentMark, he, hplus, hminus]
  simp [exponentLexeme, hmark, List.takeWhile_append_of_pos hps, List.dropWhile_append_of_pos hps]

theorem exponentLexeme_absent (h : startsWith Text.isIdentifierPart rest = false) :
    exponentLexeme rest = ([], [], rest) := by
  have hmark : exponentMark rest = ([], rest) := by
    unfold exponentMark
    split
    · rfl
    · rename_i c cs
      have hc : Text.isIdentifierPart c = false := h
      have hne : ¬ (c = 'e' ∨ c = 'E') := by
        rintro (rfl | rfl) <;> exact absurd hc (by decide)
      rw [if_neg hne]
  simp [exponentLexeme, hmark]

theorem exponentLexeme_isPower {cs mark power rest : List Char}
    (h : exponentLexeme cs = (mark, power, rest)) (hpower : mark ≠ [] → power ≠ []) :
    IsPower (mark ++ power) := by
  have hdigits (ds : List Char) : ∀ d ∈ ds.takeWhile Char.isDigit, d.isDigit = true :=
    List.all_eq_true.1 List.all_takeWhile
  simp only [exponentLexeme] at h
  split at h
  · cases h
    exact .absent
  · rename_i hmark
    simp only [Prod.mk.injEq] at h
    obtain ⟨rfl, rfl, -⟩ := h
    have hne := hpower (by simpa using hmark)
    unfold exponentMark at hmark hne ⊢
    split at hmark
    · simp at hmark
    · split at hmark
      · rename_i e cs he
        simp only [if_pos he] at hne ⊢
        split at hne <;> exact .present he (by simp) (hdigits _) hne
      · simp at hmark

theorem IsPower.exponentLexeme_append (hp : IsPower p)
    (h : startsWith Text.isIdentifierPart rest = false) :
    ∃ mark power, p = mark ++ power ∧ (mark ≠ [] → power ≠ []) ∧
      exponentLexeme (p ++ rest) = (mark, power, rest) := by
  cases hp with
  | absent => exact ⟨[], [], rfl, fun hne => absurd rfl hne, exponentLexeme_absent h⟩
  | @present e sign ps he hsign hps hne =>
      have hdigit := startsWith_mono (fun _ => isIdentifierPart_of_isDigit) h
      have htake := takeWhile_append_of_startsWith (List.forall_mem_nil _) hdigit
      have hdrop := dropWhile_append_of_startsWith (List.forall_mem_nil _) hdigit
      rw [List.nil_append] at htake hdrop
      refine ⟨e :: sign, ps, rfl, fun _ => hne, ?_⟩
      rw [List.cons_append, List.append_assoc, exponentLexeme_present he hsign hps hne, htake,
        hdrop, List.append_nil]

theorem ends_of_exponent {e : Char} (he : e = 'e' ∨ e = 'E') (rest : List Char) :
    startsWith Char.isDigit (e :: rest) = false ∧
      ∀ cs, e :: rest = '.' :: cs → startsWith Char.isDigit cs = false := by
  rcases he with rfl | rfl
  · exact ⟨rfl, by simp⟩
  · exact ⟨rfl, by simp⟩

theorem IsPower.ends (hp : IsPower p) (h : startsWith Text.isIdentifierPart rest = false)
    (hpoint : ∀ cs, rest = '.' :: cs → startsWith Char.isDigit cs = false) :
    startsWith Char.isDigit (p ++ rest) = false ∧
      ∀ cs, p ++ rest = '.' :: cs → startsWith Char.isDigit cs = false := by
  cases hp with
  | absent => exact ⟨startsWith_mono (fun _ => isIdentifierPart_of_isDigit) h, hpoint⟩
  | present he => exact ends_of_exponent he _

end

section

variable {offset : Nat} {m p rest : List Char}

theorem readNumber_of_isMantissa (hm : IsMantissa m) (hp : IsPower p) {n : Numeral}
    (hn : Numeral.ofText? (m ++ p) = some n) (h : startsWith Text.isIdentifierPart rest = false)
    (hpoint : ∀ cs, rest = '.' :: cs → startsWith Char.isDigit cs = false) :
    readNumber offset (m ++ (p ++ rest)) = .ok (.number n.toDouble, rest) := by
  obtain ⟨hdigit, hpoint⟩ := hp.ends h hpoint
  obtain ⟨mark, power, rfl, hpower, hexponent⟩ := hp.exponentLexeme_append h
  have hcomplete : (!mark.isEmpty && power.isEmpty) = false := by
    by_cases hm : mark = []
    · simp [hm]
    · simp [hpower hm]
  simp only [readNumber, hm.mantissaLexeme_append hdigit hpoint, hexponent, hcomplete, h, hn,
    Bool.false_eq_true, if_false]

theorem readNumber_eq_ok {cs mark power rest' : List Char} {t : Token}
    (hexponent : exponentLexeme (mantissaLexeme cs).2 = (mark, power, rest'))
    (h : readNumber offset cs = .ok (t, rest)) :
    (mark ≠ [] → power ≠ []) ∧ rest = rest' ∧
      ∃ n, Numeral.ofText? ((mantissaLexeme cs).1 ++ (mark ++ power)) = some n ∧
        t = .number n.toDouble := by
  simp only [readNumber, hexponent] at h
  split at h
  · cases h
  · rename_i hcomplete
    split at h
    · cases h
    · split at h
      · rename_i n hn
        cases h
        refine ⟨fun hmark hpower => hcomplete ?_, rfl, n, hn, rfl⟩
        simp [hmark, hpower]
      · cases h

theorem isMantissa_of_readNumber {cs : List Char} {t : Token}
    (h : readNumber offset cs = .ok (t, rest)) :
    ∃ m p n, IsMantissa m ∧ IsPower p ∧ Numeral.ofText? (m ++ p) = some n ∧
      t = .number n.toDouble ∧ cs = m ++ (p ++ rest) := by
  obtain ⟨mark, power, rest', hexponent⟩ :
      ∃ mark power rest', exponentLexeme (mantissaLexeme cs).2 = (mark, power, rest') :=
    ⟨_, _, _, rfl⟩
  obtain ⟨hpower, rfl, n, hn, rfl⟩ := readNumber_eq_ok hexponent h
  have hcs := mantissaLexeme_append cs
  have hrest := exponentLexeme_append (mantissaLexeme cs).2
  rw [hexponent] at hrest
  refine ⟨_, mark ++ power, n, mantissaLexeme_isMantissa cs,
    exponentLexeme_isPower hexponent hpower, hn, rfl, ?_⟩
  rw [List.append_assoc, hrest, hcs]

theorem readNumber_length_le (hm : IsMantissa m) (hp : IsPower p) {q : List Char} {t : Token}
    (h : readNumber offset (m ++ (p ++ q)) = .ok (t, rest)) : rest.length ≤ q.length := by
  obtain ⟨mark, power, rest', hexponent⟩ :
      ∃ mark power rest', exponentLexeme (mantissaLexeme (m ++ (p ++ q))).2 = (mark, power, rest') :=
    ⟨_, _, _, rfl⟩
  have hle : rest'.length ≤ q.length := by
    cases hp with
    | absent =>
        have hleft := congrArg List.length (exponentLexeme_append (mantissaLexeme (m ++ ([] ++ q))).2)
        simp only [hexponent, List.length_append] at hleft
        have := hm.length_le q
        rw [List.nil_append] at hleft
        omega
    | @present e sign ps he hsign hps hne =>
        obtain ⟨hdigit, hpoint⟩ := ends_of_exponent he (sign ++ ps ++ q)
        rw [List.cons_append, hm.mantissaLexeme_append hdigit hpoint, List.append_assoc,
          exponentLexeme_present he hsign hps hne] at hexponent
        cases hexponent
        exact (List.dropWhile_suffix _).length_le
  obtain ⟨-, rfl, -⟩ := readNumber_eq_ok hexponent h
  exact hle

end

end TemplateExpr.Token
