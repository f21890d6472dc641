import TemplateExpr.Token.Scan

namespace TemplateExpr

def Mistake.shift (k : Nat) (m : Mistake) : Mistake :=
  { m with offset := m.offset + k }

def Located.shift (k : Nat) (t : Located) : Located :=
  { t with offset := t.offset + k }

namespace Token

section

variable (k offset : Nat) (cs : List Char)

theorem readNumber_shift :
    readNumber (offset + k) cs = (readNumber offset cs).mapError (Mistake.shift k) := by
  simp only [readNumber, Nat.add_right_comm offset k]
  split
  · rfl
  split
  · rfl
  split <;> rfl

theorem readText_shift (quote : Char) (start : Nat) :
    readText quote (start + k) (offset + k) cs =
      (readText quote start offset cs).mapError (Mistake.shift k) := by
  fun_induction readText quote start offset cs with
  | case1 => rfl
  | case2 offset a b c d rest u hu ih =>
      simp only [readText.eq_2, hu, Nat.add_right_comm offset k, ih]
      cases readText quote start (offset + 6) rest <;> rfl
  | case3 offset a b c d rest hu =>
      simp only [readText.eq_2, hu]
      rfl
  | case4 offset cs hshort =>
      rw [readText.eq_3 _ _ _ _ hshort]
      rfl
  | case5 => rfl
  | case6 offset c rest hc ih =>
      rw [readText.eq_5 _ _ _ _ _ hc, Nat.add_right_comm offset k, Nat.add_right_comm _ k, ih]
      cases readText quote start (offset + 1 + c.utf8Size) rest <;> rfl
  | case7 offset rest hu hlast hescape =>
      rw [readText.eq_6 _ _ _ _ _ hu hlast hescape, if_pos rfl]
      rfl
  | case8 offset rest hu hlast hescape hn =>
      rw [readText.eq_6 _ _ _ _ _ hu hlast hescape, if_neg hn, if_pos rfl]
      rfl
  | case9 offset c rest hu hlast hescape hn hq ih =>
      rw [readText.eq_6 _ _ _ _ _ hu hlast hescape, if_neg hn, if_neg hq,
        Nat.add_right_comm offset k, ih]
      cases readText quote start (offset + c.utf8Size) rest <;> rfl

theorem readWord_shift :
    readWord (offset + k) cs = (readWord offset cs).mapError (Mistake.shift k) := by
  have hword (w : String) :
      ofWord (offset + k) w = (ofWord offset w).mapError (Mistake.shift k) := by
    unfold ofWord
    split
    · rfl
    split <;> rfl
  rw [readWord, hword, readWord]
  cases ofWord offset _ <;> rfl

theorem readSymbol_shift (c : Char) :
    readSymbol (offset + k) c cs = (readSymbol offset c cs).mapError (Mistake.shift k) := by
  unfold readSymbol
  split
  case h_23 => split <;> rfl
  all_goals rfl

theorem read_shift (c : Char) :
    read (offset + k) c cs = (read offset c cs).mapError (Mistake.shift k) := by
  unfold read
  split
  · exact readNumber_shift k offset (c :: cs)
  split
  · rw [Nat.add_right_comm offset k, readText_shift]
    cases readText c offset (offset + 1) cs <;> rfl
  split
  · exact readWord_shift k offset (c :: cs)
  · exact readSymbol_shift k offset cs c

theorem scanFrom_shift :
    scanFrom (offset + k) cs =
      ((scanFrom offset cs).map (List.map (Located.shift k))).mapError (Mistake.shift k) := by
  fun_induction scanFrom offset cs with
  | case1 offset cs here =>
      rename_i hcs
      rw [scanFrom_eq, hcs, Nat.add_right_comm offset k]
      rfl
  | case2 offset cs here c rest hcs e hread =>
      have hhere : offset + Text.size (cs.takeWhile Text.isSpace) = here := rfl
      have hshift : read (here + k) c rest = .error (e.shift k) := by
        rw [read_shift, hread]
        rfl
      rw [scanFrom_eq, hcs, Nat.add_right_comm offset k, hhere]
      simp only [hshift]
      rfl
  | case3 offset cs here c rest hcs t rest' hread ih =>
      have hhere : offset + Text.size (cs.takeWhile Text.isSpace) = here := rfl
      have hshift : read (here + k) c rest = .ok (t, rest') := by
        rw [read_shift, hread]
        rfl
      rw [scanFrom_eq, hcs, Nat.add_right_comm offset k, hhere]
      simp only [hshift, Nat.add_right_comm here k, ih]
      cases scanFrom (here + (Text.size (c :: rest) - Text.size rest')) rest' <;> rfl

theorem scanFrom_eq_shift :
    scanFrom k cs = ((scanFrom 0 cs).map (List.map (Located.shift k))).mapError (Mistake.shift k) := by
  rw [← scanFrom_shift, Nat.zero_add]

end

theorem exists_scanFrom_zero {t : Located} {cs : List Char} {ts : List Located}
    (h : scanFrom t.offset cs = .ok (t :: ts)) :
    ∃ us, scanFrom 0 cs = .ok (⟨t.token, 0⟩ :: us) ∧ ts = us.map (Located.shift t.offset) := by
  rw [scanFrom_eq_shift] at h
  rcases hscan : scanFrom 0 cs with m | vs
  · rw [hscan] at h
    cases h
  · rw [hscan] at h
    have hvs : vs.map (Located.shift t.offset) = t :: ts := Except.ok.inj h
    obtain ⟨v, us, rfl, hv, rfl⟩ := List.map_eq_cons_iff.1 hvs
    have hoffset : v.offset = 0 := by
      have hshift := congrArg Located.offset hv
      simpa [Located.shift] using hshift
    refine ⟨us, ?_, rfl⟩
    rw [← hv, ← hoffset]
    rfl

end Token

end TemplateExpr
