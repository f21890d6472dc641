import TemplateExpr.Proofs.Decimal.Written
import TemplateExpr.Proofs.Walk.Steps

namespace TemplateExpr

namespace Token

variable {c : Char} {cs m p : List Char}

theorem lexeme_append {mark power rest : List Char}
    (h : exponentLexeme (mantissaLexeme cs).2 = (mark, power, rest)) :
    (mantissaLexeme cs).1 ++ (mark ++ power) ++ rest = cs := by
  have hpower := exponentLexeme_append (mantissaLexeme cs).2
  rw [h] at hpower
  rw [List.append_assoc, List.append_assoc, hpower, mantissaLexeme_append]

theorem IsMantissa.exists_isSignificand (hm : IsMantissa m) (hne : m ≠ []) :
    ∃ d, Numeral.IsSignificand d m := by
  cases hm with
  | whole hds => exact ⟨_, .whole ⟨hne, hds⟩⟩
  | @pointed ds fs hds hfs hfraction =>
      by_cases hwhole : ds = []
      · subst hwhole
        exact ⟨_, .fraction ⟨hfraction, hfs⟩⟩
      · exact ⟨_, .pointed ⟨hwhole, hds⟩ (.inr ⟨hfraction, hfs⟩)⟩

theorem IsPower.exists_isExponent (hp : IsPower p) : ∃ e, Numeral.IsExponent e p := by
  cases hp with
  | absent => exact ⟨_, .absent⟩
  | present he hsign hps hne =>
      simp only [List.mem_cons, List.not_mem_nil, or_false] at hsign
      rcases hsign with rfl | rfl | rfl
      · exact ⟨_, .present he .absent ⟨hne, hps⟩⟩
      · exact ⟨_, .present he .plus ⟨hne, hps⟩⟩
      · exact ⟨_, .present he .minus ⟨hne, hps⟩⟩

theorem mantissaLexeme_ne_nil (hc : (c.isDigit || c == '.' && startsWith Char.isDigit cs) = true) :
    (mantissaLexeme (c :: cs)).1 ≠ [] := by
  by_cases hdigit : c.isDigit = true
  · rw [mantissaLexeme_eq, List.takeWhile_cons_of_pos hdigit]
    exact List.cons_ne_nil _ _
  · simp only [hdigit, Bool.false_or, Bool.and_eq_true, beq_iff_eq] at hc
    obtain ⟨rfl, hstarts⟩ := hc
    rw [mantissaLexeme_of_point hstarts]
    exact List.cons_ne_nil _ _

/-- What is taken where a number starts, with the digits of its exponent if it has one. -/
inductive NumberLexeme : List Char → Prop
  | mk {c cs mark power rest} : (c.isDigit || c == '.' && startsWith Char.isDigit cs) = true →
      exponentLexeme (mantissaLexeme (c :: cs)).2 = (mark, power, rest) →
      (mark ≠ [] → power ≠ []) → NumberLexeme ((mantissaLexeme (c :: cs)).1 ++ (mark ++ power))

theorem NumberLexeme.exists_numeral {lexeme : List Char} (h : NumberLexeme lexeme) :
    ∃ n, Numeral.ofText? lexeme = some n := by
  obtain ⟨hc, hexponent, hpower⟩ := h
  obtain ⟨d, hd⟩ := (mantissaLexeme_isMantissa _).exists_isSignificand (mantissaLexeme_ne_nil hc)
  obtain ⟨e, he⟩ := (exponentLexeme_isPower hexponent hpower).exists_isExponent
  have hwritten : Numeral.Written _ ([] ++ (_ ++ _)) := .mk .absent hd he
  exact ⟨_, Numeral.ofText?_eq_some.2 hwritten⟩

end Token

namespace Scanner

open Text

variable {l : Scanner} {cs : List Char} {pos start : Nat} {c : Char}

theorem utf8Size_of_number (hc : (c.isDigit || c == '.' && Token.startsWith Char.isDigit cs) = true) :
    c.utf8Size = 1 := by
  simp only [Bool.or_eq_true, Bool.and_eq_true, beq_iff_eq] at hc
  rcases hc with hdigit | ⟨rfl, -⟩
  · exact oneByte_isDigit c hdigit
  · rfl

theorem mantissa_apply (h : StandsAt l.text start (c :: cs))
    (hc : (c.isDigit || c == '.' && Token.startsWith Char.isDigit cs) = true) :
    l.mantissa start (start + 1) =
      some (.ok (), start + size (Token.mantissaLexeme (c :: cs)).1) := by
  have hsize := utf8Size_of_number hc
  have hnext := h.next
  rw [hsize] at hnext
  have hdrop := standsAt_dropWhile Char.isDigit hnext
  have hsince : l.since start (start + 1) = some (.ok [c], start + 1) := since_apply h hnext
  rw [mantissa, Walk.bind_of_ok hsince,
    Walk.bind_of_ok (eatDigits_apply hnext), Walk.bind_of_ok (peek_apply hdrop),
    Walk.bind_of_ok (peekSecond_apply hdrop)]
  by_cases hdigit : c.isDigit = true
  · have hfirst : [c] ≠ ['.'] := by
      rintro he
      cases he
      exact absurd hdigit (by decide)
    have hends := Token.startsWith_dropWhile Char.isDigit cs
    rw [Token.mantissaLexeme_eq, List.takeWhile_cons_of_pos hdigit,
      List.dropWhile_cons_of_pos hdigit, List.cons_append, size_cons, size_append, hsize]
    generalize cs.dropWhile Char.isDigit = r at hdrop hends
    by_cases hpoint : r.head? = some '.' ∧ r.tail.head?.any Char.isDigit = true
    · obtain ⟨fs, rfl⟩ := List.head?_eq_some_iff.1 hpoint.1
      have hpointed : StandsAt l.text (start + 1 + size (cs.takeWhile Char.isDigit) + 1) fs :=
        hdrop.next
      have hstarts : Token.startsWith Char.isDigit fs = true := hpoint.2
      have hend : start + (1 + (size (cs.takeWhile Char.isDigit) +
            (1 + size (fs.takeWhile Char.isDigit)))) =
          start + 1 + size (cs.takeWhile Char.isDigit) + 1 + size (fs.takeWhile Char.isDigit) := by
        omega
      rw [if_pos ⟨hfirst, hpoint⟩, Walk.bind_of_ok (moveBy_apply hpointed),
        Walk.bind_of_ok (eatDigits_apply hpointed), Token.mantissaLexeme_of_point hstarts,
        Walk.pure_apply, ← hend]
      rfl
    · have hwhole : Token.mantissaLexeme r = ([], r) := by
        refine Token.mantissaLexeme_of_ends hends ?_
        rintro fs rfl
        exact Bool.eq_false_iff.2 fun hstarts => hpoint ⟨rfl, hstarts⟩
      rw [if_neg fun hpointed => hpoint hpointed.2, hwhole, size_nil, Nat.add_zero,
        Nat.add_assoc start]
      rfl
  · have hpoint : c = '.' ∧ Token.startsWith Char.isDigit cs = true := by
      simpa [hdigit] using hc
    obtain ⟨rfl, hstarts⟩ := hpoint
    rw [if_neg (by simp), Token.mantissaLexeme_of_point hstarts, size_cons, hsize,
      Nat.add_assoc start]
    rfl

theorem eatByte_sign {e : Char} (he : e = 'e' ∨ e = 'E') (h : StandsAt l.text pos (e :: cs)) :
    ∃ b, l.eatByte (fun c => c = '+' ∨ c = '-') (pos + 1) =
        some (.ok b, pos + size (Token.exponentMark (e :: cs)).1) ∧
      (Token.exponentMark (e :: cs)).1 ≠ [] := by
  have hsize : e.utf8Size = 1 := by rcases he with rfl | rfl <;> rfl
  have hnext := h.next
  rw [hsize] at hnext
  have hone : OneByte fun c => c = '+' ∨ c = '-' := by
    intro c hc
    rcases of_decide_eq_true hc with rfl | rfl <;> rfl
  by_cases hsign : Token.startsWith (fun c => c = '+' ∨ c = '-') cs = true
  · obtain ⟨c, rest, rfl⟩ : ∃ c rest, cs = c :: rest := by
      cases cs with
      | nil => cases hsign
      | cons c rest => exact ⟨c, rest, rfl⟩
    have hmark : (Token.exponentMark (e :: c :: rest)).1 = [e, c] := by
      rcases of_decide_eq_true hsign with rfl | rfl <;> simp [Token.exponentMark, he]
    refine ⟨true, ?_, by rw [hmark]; exact List.cons_ne_nil _ _⟩
    rw [hmark, size_cons, size_cons, hsize, hone c hsign, eatByte_of_pos hone hnext hsign]
    rfl
  · have hmark : (Token.exponentMark (e :: cs)).1 = [e] := by
      simp only [Token.exponentMark, he, if_true]
      split <;> simp_all [Token.startsWith]
    refine ⟨false, ?_, by rw [hmark]; exact List.cons_ne_nil _ _⟩
    rw [hmark, size_cons, hsize, eatByte_of_neg hnext (Bool.eq_false_iff.2 hsign)]
    rfl

theorem exponent_apply (h : StandsAt l.text pos cs) {mark power rest : List Char}
    (hexponent : Token.exponentLexeme cs = (mark, power, rest)) :
    l.exponent pos = some (if mark ≠ [] ∧ power = [] then
      .error ⟨.missingExponent, pos + size (mark ++ power)⟩ else .ok (),
      pos + size (mark ++ power)) := by
  have hone : OneByte fun c => c = 'e' ∨ c = 'E' := by
    intro c hc
    rcases of_decide_eq_true hc with rfl | rfl <;> rfl
  rw [Token.exponentLexeme] at hexponent
  by_cases hmark : Token.startsWith (fun c => c = 'e' ∨ c = 'E') cs = true
  · obtain ⟨e, ds, rfl⟩ : ∃ e ds, cs = e :: ds := by
      cases cs with
      | nil => cases hmark
      | cons e ds => exact ⟨e, ds, rfl⟩
    obtain ⟨b, hsign, hne⟩ := eatByte_sign (of_decide_eq_true hmark) h
    have hstands : StandsAt l.text (pos + size (Token.exponentMark (e :: ds)).1)
        (Token.exponentMark (e :: ds)).2 := by
      refine StandsAt.append ?_
      rwa [Token.exponentMark_append]
    generalize Token.exponentMark (e :: ds) = r at hexponent hsign hne hstands
    rw [if_neg (by simpa using hne)] at hexponent
    cases hexponent
    rw [exponent, Walk.bind_of_ok (eatByte_of_pos hone h hmark), if_pos rfl, Walk.bind_of_ok hsign,
      Walk.bind_of_ok (eatDigits_apply hstands), size_append, ← Nat.add_assoc]
    by_cases hpower : r.2.takeWhile Char.isDigit = []
    · rw [hpower, if_pos size_nil, if_pos ⟨hne, rfl⟩]
      rfl
    · rw [if_neg (Nat.ne_of_gt (size_pos hpower)), if_neg fun h => hpower h.2]
      rfl
  · have hnil : Token.exponentMark cs = ([], cs) := by
      cases cs with
      | nil => rfl
      | cons e ds =>
          have he : ¬ (e = 'e' ∨ e = 'E') := fun he => hmark (decide_eq_true he)
          simp [Token.exponentMark, he]
    rw [hnil] at hexponent
    cases hexponent
    rw [exponent, Walk.bind_of_ok (eatByte_of_neg h (Bool.eq_false_iff.2 hmark))]
    rfl

theorem numeral_reads {lexeme : List Char} {n : Numeral} (h : StandsAt l.text start (lexeme ++ cs))
    (hn : Numeral.ofText? lexeme = some n) :
    Reads l (l.numeral start) (start + size lexeme)
      (if Token.startsWith isIdentifierPart cs then
        .error ⟨.nameAfterNumber, start + size lexeme⟩
      else .ok (.number n.toDouble, cs)) := by
  have hend := h.append
  rw [numeral]
  refine .of_eq ?_ (Walk.bind_of_ok (peek_apply hend) _)
  by_cases hname : Token.startsWith isIdentifierPart cs = true
  · have hhead : cs.head?.any isIdentifierPart = true := hname
    rw [if_pos hhead, if_pos hname]
    exact .error rfl ⟨rfl, hend.boundary, by simp, hend.boundary⟩
  · have hhead : ¬ cs.head?.any isIdentifierPart = true := hname
    rw [if_neg hhead, if_neg hname]
    refine .of_eq ?_ (Walk.bind_of_ok (since_apply h hend) _)
    rw [hn]
    exact .pure hend

theorem number_reads (h : StandsAt l.text start (c :: cs))
    (hc : (c.isDigit || c == '.' && Token.startsWith Char.isDigit cs) = true) :
    Reads l (l.number start) (start + 1) (Token.readNumber start (c :: cs)) := by
  obtain ⟨mark, power, rest, hexponent⟩ : ∃ mark power rest,
      Token.exponentLexeme (Token.mantissaLexeme (c :: cs)).2 = (mark, power, rest) :=
    ⟨_, _, _, rfl⟩
  have hdigits : StandsAt l.text (start + size (Token.mantissaLexeme (c :: cs)).1)
      (Token.mantissaLexeme (c :: cs)).2 := by
    refine StandsAt.append ?_
    rwa [Token.mantissaLexeme_append]
  have hstart : StandsAt l.text start
      ((Token.mantissaLexeme (c :: cs)).1 ++ (mark ++ power) ++ rest) := by
    rwa [Token.lexeme_append hexponent]
  have hnumeral := fun hpower => (Token.NumberLexeme.mk hc hexponent hpower).exists_numeral
  have hpower := exponent_apply hdigits hexponent
  rw [Nat.add_assoc, ← size_append] at hpower
  simp only [Token.readNumber, hexponent]
  rw [number]
  refine .of_eq ?_ (Walk.bind_of_ok (mantissa_apply h hc) _)
  by_cases hmissing : mark ≠ [] ∧ power = []
  · have hend := hstart.append.boundary
    rw [if_pos hmissing] at hpower
    rw [if_pos (by simpa using hmissing)]
    exact .error (Walk.bind_of_error hpower _) ⟨rfl, hend, by simp, hend⟩
  · obtain ⟨n, hn⟩ := hnumeral fun hmark hpower => hmissing ⟨hmark, hpower⟩
    rw [if_neg hmissing] at hpower
    rw [if_neg (by simpa using hmissing), hn]
    exact (numeral_reads hstart hn).of_eq (Walk.bind_of_ok hpower _)

end Scanner

end TemplateExpr
