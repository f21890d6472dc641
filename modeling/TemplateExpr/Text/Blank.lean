namespace TemplateExpr.Text

def isSpace (c : Char) : Bool :=
  c == ' ' || c == '\t' || c == '\n' || c == '\r'

/-- The characters of the property White_Space, as closed ranges of code points. -/
def blankRanges : List (Nat × Nat) :=
  [(0x9, 0xD), (0x20, 0x20), (0x85, 0x85), (0xA0, 0xA0), (0x1680, 0x1680), (0x2000, 0x200A),
    (0x2028, 0x2029), (0x202F, 0x202F), (0x205F, 0x205F), (0x3000, 0x3000)]

def isBlank (c : Char) : Bool :=
  blankRanges.any fun r => decide (r.1 ≤ c.toNat ∧ c.toNat ≤ r.2)

theorem isBlank_of_isSpace {c : Char} (h : isSpace c) : isBlank c := by
  simp only [isSpace, Bool.or_eq_true, beq_iff_eq] at h
  rcases h with ((rfl | rfl) | rfl) | rfl <;> decide

theorem isBlank_of_isWhitespace {c : Char} (h : c.isWhitespace) : isBlank c := by
  simp only [Char.isWhitespace, Bool.or_eq_true, decide_eq_true_eq] at h
  rcases h with ((rfl | rfl) | rfl) | rfl <;> decide

def trimEnd (cs : List Char) : List Char :=
  (cs.reverse.dropWhile isBlank).reverse

def trim (cs : List Char) : List Char :=
  trimEnd (cs.dropWhile isBlank)

theorem dropWhile_append_cons {c : Char} (h : ¬ isBlank c) (as bs : List Char) :
    (as ++ c :: bs).dropWhile isBlank = as.dropWhile isBlank ++ c :: bs := by
  induction as with
  | nil => exact List.dropWhile_cons_of_neg h
  | cons a as ih =>
      rw [List.cons_append]
      by_cases ha : isBlank a
      · rw [List.dropWhile_cons_of_pos ha, List.dropWhile_cons_of_pos ha, ih]
      · rw [List.dropWhile_cons_of_neg ha, List.dropWhile_cons_of_neg ha, List.cons_append]

theorem trimEnd_append_cons {c : Char} (h : ¬ isBlank c) (as bs : List Char) :
    trimEnd (as ++ c :: bs) = as ++ c :: trimEnd bs := by
  have hrev : (as ++ c :: bs).reverse = bs.reverse ++ c :: as.reverse := by simp
  rw [trimEnd, trimEnd, hrev, dropWhile_append_cons h]
  simp

theorem trimEnd_append_blanks (cs : List Char) :
    ∃ bs, (∀ b ∈ bs, isBlank b) ∧ cs = trimEnd cs ++ bs := by
  refine ⟨(cs.reverse.takeWhile isBlank).reverse, ?_, ?_⟩
  · intro b hb
    exact List.all_eq_true.1 List.all_takeWhile b (List.mem_reverse.1 hb)
  · rw [trimEnd, ← List.reverse_append, List.takeWhile_append_dropWhile, List.reverse_reverse]

theorem blanks_append_trim_append_blanks (cs : List Char) :
    ∃ as bs, (∀ a ∈ as, isBlank a) ∧ (∀ b ∈ bs, isBlank b) ∧ cs = as ++ trim cs ++ bs := by
  obtain ⟨bs, hbs, h⟩ := trimEnd_append_blanks (cs.dropWhile isBlank)
  refine ⟨cs.takeWhile isBlank, bs, ?_, hbs, ?_⟩
  · exact fun a ha => List.all_eq_true.1 List.all_takeWhile a ha
  · rw [List.append_assoc, trim, ← h, List.takeWhile_append_dropWhile]

end TemplateExpr.Text
