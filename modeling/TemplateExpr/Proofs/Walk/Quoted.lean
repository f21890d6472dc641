import TemplateExpr.Proofs.Walk.Steps

namespace TemplateExpr.Scanner

open Text

variable {l : Scanner} {cs : List Char} {pos start u : Nat} {a b c d quote : Char}

theorem utf8Size_of_hexValue? {n : Nat} (h : hexValue? c = some n) : c.utf8Size = 1 := by
  have hle {x : Char} (hx : c ≤ x) (hbyte : x.val ≤ 127) : c.utf8Size = 1 :=
    Char.utf8Size_eq_one_iff.2 (UInt32.le_trans hx hbyte)
  unfold hexValue? at h
  split at h
  · rename_i hdigit
    exact oneByte_isDigit c hdigit
  split at h
  · rename_i hlower
    exact hle hlower.2 (by decide)
  split at h
  · rename_i hupper
    exact hle hupper.2 (by decide)
  · cases h

theorem size_of_unitOfHex? (h : unitOfHex? a b c d = some u) : size [a, b, c, d] = 4 := by
  unfold unitOfHex? at h
  simp only [Option.bind_eq_bind, Option.bind_eq_some_iff] at h
  obtain ⟨na, ha, nb, hb, nc, hc, nd, hd, -⟩ := h
  simp only [size_cons, size_nil, utf8Size_of_hexValue? ha, utf8Size_of_hexValue? hb,
    utf8Size_of_hexValue? hc, utf8Size_of_hexValue? hd]

theorem unit?_eq_some :
    unit? cs = some u ↔ ∃ a b c d, cs = [a, b, c, d] ∧ unitOfHex? a b c d = some u := by
  constructor
  · intro h
    unfold unit? at h
    split at h
    · exact ⟨_, _, _, _, rfl, h⟩
    · cases h
  · rintro ⟨a, b, c, d, rfl, h⟩
    exact h

theorem unitEscape_of_unit (escapeAt : Nat) (h : StandsAt l.text pos ([a, b, c, d] ++ cs))
    (hu : unitOfHex? a b c d = some u) :
    l.unitEscape escapeAt pos = some (.ok (ofUnit u), pos + 4) := by
  have hsize := size_of_unitOfHex? hu
  have hnext := h.append
  have hsplit := splitAt?_append [a, b, c, d] cs
  rw [hsize] at hnext hsplit
  have hunit : ((splitAt? 4 ([a, b, c, d] ++ cs)).bind fun r => unit? r.1) = some u := by
    rw [hsplit]
    exact hu
  rw [unitEscape, Walk.bind_of_ok (rest_apply h), hunit]
  exact Walk.bind_of_ok (moveBy_apply hnext) _

-- The four bytes may end within a character or beyond the text, and then they are no digits.
theorem unitEscape_of_none (escapeAt : Nat) (h : StandsAt l.text pos cs)
    (hcs : ∀ a b c d rest, cs = [a, b, c, d] ++ rest → unitOfHex? a b c d = none) :
    l.unitEscape escapeAt pos = some (.error ⟨.badEscape, escapeAt⟩, pos) := by
  have hunit : ((splitAt? 4 cs).bind fun r => unit? r.1) = none := by
    refine Option.eq_none_iff_forall_ne_some.2 fun u hu => ?_
    obtain ⟨⟨digits, rest⟩, hsplit, hdigits⟩ := Option.bind_eq_some_iff.1 hu
    obtain ⟨a, b, c, d, rfl, hhex⟩ := unit?_eq_some.1 hdigits
    rw [hcs a b c d rest (splitAt?_eq_some.1 hsplit).1] at hhex
    cases hhex
  rw [unitEscape, Walk.bind_of_ok (rest_apply h), hunit]
  rfl

section

variable {α β : Type} {o : Except Mistake (α × List Char)}

theorem Reads.advance {f : Option Char → Walk Nat α} (h : StandsAt l.text pos (c :: cs))
    (hr : Reads l (f (some c)) (pos + c.utf8Size) o) :
    Reads l (l.advance >>= f) pos o :=
  hr.of_eq (Walk.bind_of_ok (advance_cons h) f)

theorem Reads.advance_nil {f : Option Char → Walk Nat α} (h : StandsAt l.text pos [])
    (hr : Reads l (f none) pos o) : Reads l (l.advance >>= f) pos o :=
  hr.of_eq (Walk.bind_of_ok (Scanner.advance_nil h) f)

theorem Reads.get {f : Nat → Walk Nat α} (hr : Reads l (f pos) pos o) :
    Reads l (MonadState.get >>= f) pos o :=
  hr.of_eq (Walk.bind_of_ok (Walk.get_apply pos) f)

end

theorem ne_backslash (hlast : c = '\\' → cs = [] → False)
    (hescape : ∀ d ds, c = '\\' → cs = d :: ds → False) : c ≠ '\\' := by
  intro hc
  cases cs with
  | nil => exact hlast hc rfl
  | cons d ds => exact hescape d ds hc rfl

theorem quoted_escape {o : Except Mistake (List Char × List Char)}
    (h : StandsAt l.text pos ('\\' :: c :: cs)) (hr : Reads l (do
      let d ← l.escape pos c
      let body ← l.quoted quote start
      pure (d :: body)) (pos + 1 + c.utf8Size) o) : Reads l (l.quoted quote start) pos o := by
  rw [quoted]
  exact .advance h (.get (.advance h.next hr))

theorem quoted_reads (h : StandsAt l.text pos cs) (hstart : Boundary l.text start) :
    Reads l (l.quoted quote start) pos (Token.readText quote start pos cs) := by
  fun_induction Token.readText quote start pos cs with
  | case1 pos =>
      rw [quoted]
      exact .advance_nil h (.throw h hstart (by simp))
  | case2 pos a b c d cs u hu ih =>
      have hdigits : StandsAt l.text (pos + 1 + 1) ([a, b, c, d] ++ cs) := h.next.next
      have hunit := unitEscape_of_unit pos hdigits hu
      have hrest := hdigits.append
      rw [size_of_unitOfHex? hu] at hrest
      refine quoted_escape h (.of_eq ((ih hrest).bind ?_) (Walk.bind_of_ok hunit _))
      intro body t cs₁ h₁
      exact .pure h₁
  | case3 pos a b c d cs hu =>
      have hdigits : StandsAt l.text (pos + 1 + 1) ([a, b, c, d] ++ cs) := h.next.next
      have hunit := unitEscape_of_none pos hdigits (by
        rintro _ _ _ _ _ he; cases he; exact hu)
      refine quoted_escape h (.error (Walk.bind_of_error hunit _) ?_)
      exact ⟨rfl, h.boundary, by simp, hdigits.boundary⟩
  | case4 pos cs hshort =>
      have hunit := unitEscape_of_none pos h.next.next (by
        intro a b c d rest he; exact (hshort a b c d rest he).elim)
      refine quoted_escape h (.error (Walk.bind_of_error hunit _) ?_)
      exact ⟨rfl, h.boundary, by simp, h.next.next.boundary⟩
  | case5 pos =>
      rw [quoted]
      exact .advance h (.get (.advance_nil h.next (.throw h.next hstart (by simp))))
  | case6 pos c cs hc ih =>
      refine quoted_escape h ?_
      rw [escape, if_neg hc]
      refine (ih h.next.next).bind ?_
      intro body t cs₁ h₁
      exact .pure h₁
  | case7 pos cs hu hlast hescape =>
      rw [quoted]
      exact .advance h (.throw h.next hstart (by simp))
  | case8 pos cs hu hlast hescape hn =>
      rw [quoted]
      refine .advance h ?_
      dsimp only
      rw [if_neg hn, if_neg (ne_backslash hlast hescape), if_pos rfl]
      exact .pure h.next
  | case9 pos c cs hu hlast hescape hn hq ih =>
      rw [quoted]
      refine .advance h ?_
      dsimp only
      rw [if_neg hn, if_neg (ne_backslash hlast hescape), if_neg hq]
      refine (ih h.next).bind ?_
      intro body t cs₁ h₁
      exact .pure h₁

end TemplateExpr.Scanner
