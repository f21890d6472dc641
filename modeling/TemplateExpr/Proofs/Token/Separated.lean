import TemplateExpr.Proofs.Token.Shift
import TemplateExpr.Proofs.Token.Tiling

namespace TemplateExpr.Token

section

variable {sep : Char} {p : Char → Bool} (hsep : Text.isSpace sep = true)
  (hp : [' ', '\t', '\n', '\r'].any p = false) (cs tail : List Char)
include hsep hp

theorem startsWith_append_space : startsWith p (cs ++ sep :: tail) = startsWith p cs := by
  cases cs with
  | nil => exact eq_false_of_isSpace hsep hp
  | cons c cs => rfl

theorem takeWhile_append_space : (cs ++ sep :: tail).takeWhile p = cs.takeWhile p := by
  have hstops : ¬ p sep = true := by simp [eq_false_of_isSpace hsep hp]
  rw [List.takeWhile_append, List.takeWhile_cons_of_neg hstops, List.append_nil]
  split
  · rename_i hall
    exact ((List.takeWhile_prefix p).eq_of_length hall).symm
  · rfl

theorem dropWhile_append_space :
    (cs ++ sep :: tail).dropWhile p = cs.dropWhile p ++ sep :: tail := by
  have hstops : ¬ p sep = true := by simp [eq_false_of_isSpace hsep hp]
  rw [List.dropWhile_append, List.dropWhile_cons_of_neg hstops]
  split
  · rename_i hnil
    rw [List.isEmpty_iff.1 hnil, List.nil_append]
  · rfl

end

section

variable {sep : Char} (hsep : Text.isSpace sep = true) (cs tail : List Char)
include hsep

theorem ne_of_isSpace {c : Char} (hc : Text.isSpace c = false) : sep ≠ c := by
  rintro rfl
  simp [hsep] at hc

theorem mantissaLexeme_append_space :
    mantissaLexeme (cs ++ sep :: tail) =
      ((mantissaLexeme cs).1, (mantissaLexeme cs).2 ++ sep :: tail) := by
  simp only [mantissaLexeme, takeWhile_append_space (p := Char.isDigit) hsep rfl,
    dropWhile_append_space (p := Char.isDigit) hsep rfl]
  rcases cs.dropWhile Char.isDigit with _ | ⟨c, rest⟩
  · simp [ne_of_isSpace hsep (c := '.') rfl]
  · by_cases hc : c = '.'
    · subst hc
      simp only [List.cons_append, startsWith_append_space (p := Char.isDigit) hsep rfl,
        takeWhile_append_space (p := Char.isDigit) hsep rfl,
        dropWhile_append_space (p := Char.isDigit) hsep rfl]
      split <;> rfl
    · simp [hc]

theorem exponentMark_append_space :
    exponentMark (cs ++ sep :: tail) =
      ((exponentMark cs).1, (exponentMark cs).2 ++ sep :: tail) := by
  rcases cs with _ | ⟨e, _ | ⟨d, cs⟩⟩
  · simp [exponentMark, ne_of_isSpace hsep (c := 'e') rfl, ne_of_isSpace hsep (c := 'E') rfl]
  · have hplus := ne_of_isSpace hsep (c := '+') rfl
    have hminus := ne_of_isSpace hsep (c := '-') rfl
    simp only [exponentMark, List.cons_append, List.nil_append]
    split <;> simp [hplus, hminus]
  · simp only [exponentMark, List.cons_append]
    split
    · split <;> simp_all
    · simp

theorem exponentLexeme_append_space :
    exponentLexeme (cs ++ sep :: tail) =
      ((exponentLexeme cs).1, (exponentLexeme cs).2.1, (exponentLexeme cs).2.2 ++ sep :: tail) := by
  simp only [exponentLexeme, exponentMark_append_space hsep,
    takeWhile_append_space (p := Char.isDigit) hsep rfl,
    dropWhile_append_space (p := Char.isDigit) hsep rfl]
  split <;> rfl

theorem readNumber_append_space (offset : Nat) :
    readNumber offset (cs ++ sep :: tail) =
      (readNumber offset cs).map fun r => (r.1, r.2 ++ sep :: tail) := by
  simp only [readNumber, mantissaLexeme_append_space hsep, exponentLexeme_append_space hsep,
    startsWith_append_space (p := Text.isIdentifierPart) hsep rfl]
  split
  · rfl
  split
  · rfl
  generalize Numeral.ofText? _ = n
  cases n <;> rfl

theorem readWord_append_space (offset : Nat) :
    readWord offset (cs ++ sep :: tail) =
      (readWord offset cs).map fun r => (r.1, r.2 ++ sep :: tail) := by
  simp only [readWord, takeWhile_append_space (p := Text.isIdentifierPart) hsep rfl,
    dropWhile_append_space (p := Text.isIdentifierPart) hsep rfl]
  cases ofWord offset _ <;> rfl

theorem readSymbol_append_space {offset : Nat} {c : Char} {t : Token} {rest : List Char}
    (h : readSymbol offset c cs = .ok (t, rest)) :
    readSymbol offset c (cs ++ sep :: tail) = .ok (t, rest ++ sep :: tail) := by
  have hequals {cs : List Char} (h : ∀ ds, cs = '=' :: ds → False) :
      ∀ ds, cs ++ sep :: tail = '=' :: ds → False := by
    intro ds hds
    cases cs with
    | nil => exact ne_of_isSpace hsep (c := '=') rfl (List.cons.inj hds).1
    | cons d cs => exact h cs (by rw [(List.cons.inj hds).1])
  revert h
  fun_cases readSymbol offset c cs <;> intro h <;> cases h
  case case14 hnot => exact readSymbol.eq_14 _ _ (hequals hnot)
  case case16 hnot => exact readSymbol.eq_16 _ _ (hequals hnot)
  case case22 _ hnot =>
    have hnot := hequals hnot
    exact readSymbol.eq_22 _ _ (fun ds => hnot ('=' :: ds)) hnot
  all_goals rfl

end

theorem readText_append_tail {quote : Char} (hquote : quote = '"' ∨ quote = '\'')
    {start offset : Nat} {cs body rest : List Char}
    (h : readText quote start offset cs = .ok (body, rest)) (tail : List Char) :
    readText quote start offset (cs ++ tail) = .ok (body, rest ++ tail) := by
  obtain ⟨ds, rfl, hds⟩ := quotes_of_readText h
  rw [List.append_assoc, List.cons_append, readText_of_quotes hquote hds]

theorem read_append_space {sep : Char} (hsep : Text.isSpace sep = true) {offset : Nat} {c : Char}
    {cs rest : List Char} {t : Token} (h : read offset c cs = .ok (t, rest)) (tail : List Char) :
    read offset c (cs ++ sep :: tail) = .ok (t, rest ++ sep :: tail) := by
  unfold read at h ⊢
  rw [startsWith_append_space (p := Char.isDigit) hsep rfl]
  split at h
  · rename_i hnumber
    rw [if_pos hnumber, ← List.cons_append, readNumber_append_space hsep, h]
    rfl
  rename_i hnumber
  rw [if_neg hnumber]
  split at h
  · rename_i hquote
    obtain ⟨⟨body, r⟩, hr, he⟩ := bind_eq_ok.1 h
    cases he
    rw [if_pos hquote, readText_append_tail hquote hr]
    rfl
  rename_i hquote
  rw [if_neg hquote]
  split at h
  · rename_i hstart
    rw [if_pos hstart, ← List.cons_append, readWord_append_space hsep, h]
    rfl
  · rename_i hstart
    rw [if_neg hstart]
    exact readSymbol_append_space hsep cs tail h

theorem Scans.ne_nil {offset : Nat} {cs : List Char} {ts : List Located}
    (h : Scans offset cs ts) : ts ≠ [] := by
  cases h <;> simp

theorem Scans.scanFrom_append {offset : Nat} {cs : List Char} {ts : List Located}
    (h : Scans offset cs ts) {sep : Char} {seps : List Char}
    (hseps : ∀ c ∈ sep :: seps, Text.isSpace c = true) (tail : List Char) :
    scanFrom offset (cs ++ sep :: (seps ++ tail)) =
      (scanFrom (offset + Text.size (cs ++ sep :: seps)) tail).map (ts.dropLast ++ ·) := by
  induction h with
  | @stop offset ws hws =>
      have hall : ∀ c ∈ ws ++ sep :: seps, Text.isSpace c = true :=
        List.forall_mem_append.2 ⟨hws, hseps⟩
      have hskip := scanFrom_append_of_isSpace hall offset tail
      rw [List.append_assoc, List.cons_append] at hskip
      rw [hskip]
      cases scanFrom (offset + Text.size (ws ++ sep :: seps)) tail <;> rfl
  | @token offset ws c ds rest t ts hws hspace hl hread hscans ih =>
      have hread := read_append_space (hseps sep List.mem_cons_self) hread (seps ++ tail)
      rw [List.append_assoc] at hread
      have hoffset : offset + Text.size ws + Text.size (c :: ds) + Text.size (rest ++ sep :: seps) =
          offset + Text.size (ws ++ (c :: ds ++ rest) ++ sep :: seps) := by
        simp only [Text.size_append, Nat.add_assoc]
      rw [List.append_assoc, List.append_assoc, scanFrom_token hws hspace hread, ih, hoffset,
        List.dropLast_cons_of_ne_nil hscans.ne_nil]
      cases scanFrom (offset + Text.size (ws ++ (c :: ds ++ rest) ++ sep :: seps)) tail <;> rfl

theorem scan_append_of_isSpace {s₁ w : String} {ts : List Located} (hne : w ≠ "")
    (hw : ∀ c ∈ w.toList, Text.isSpace c = true) (h : scan s₁ = .ok ts) (s₂ : String) :
    ∃ us, ts = us ++ [⟨.stop, s₁.utf8ByteSize⟩] ∧ (∀ t ∈ us, t.token ≠ .stop) ∧
      (∀ vs, scan s₂ = .ok vs →
        scan (s₁ ++ w ++ s₂) = .ok (us ++ vs.map (Located.shift (s₁ ++ w).utf8ByteSize))) ∧
      ∀ m, scan s₂ = .error m →
        scan (s₁ ++ w ++ s₂) = .error (m.shift (s₁ ++ w).utf8ByteSize) := by
  obtain ⟨us, rfl, hus⟩ := (tiles_of_scan h).2.1
  obtain ⟨sep, seps, hseps⟩ := List.exists_cons_of_ne_nil (mt String.toList_eq_nil_iff.1 hne)
  rw [hseps] at hw
  have hsize : Text.size (s₁.toList ++ sep :: seps) = (s₁ ++ w).utf8ByteSize := by
    rw [← hseps, ← String.toList_append, size_toList]
  have hscan : scan (s₁ ++ w ++ s₂) =
      (scanFrom (0 + (s₁ ++ w).utf8ByteSize) s₂.toList).map (us ++ ·) := by
    have happend := (scans_of_scanFrom h).scanFrom_append hw s₂.toList
    rw [hsize, List.dropLast_concat] at happend
    rw [scan, String.toList_append, String.toList_append, hseps, List.append_assoc,
      List.cons_append, happend]
  rw [scanFrom_shift] at hscan
  refine ⟨us, rfl, hus, fun vs hvs => ?_, fun m hm => ?_⟩
  · have hvs : scanFrom 0 s₂.toList = .ok vs := hvs
    rw [hscan, hvs]
    rfl
  · have hm : scanFrom 0 s₂.toList = .error m := hm
    rw [hscan, hm]
    rfl

theorem scan_append_of_isSpace_of_comparison :
    scan "'é'<" = .ok [⟨.text "é", 0⟩, ⟨.symbol .less, 4⟩, ⟨.stop, 5⟩] ∧
      scan ("'é'<" ++ "\r\n" ++ "===b") =
        .ok [⟨.text "é", 0⟩, ⟨.symbol .less, 4⟩, ⟨.symbol .strictEqual, 7⟩, ⟨.name "b", 10⟩,
          ⟨.stop, 11⟩] ∧
      scan ("'é'<" ++ "\r\n" ++ "b'c") = .error ⟨.unterminatedText, 8⟩ := by
  have hfirst : scan "'é'<" = .ok [⟨.text "é", 0⟩, ⟨.symbol .less, 4⟩, ⟨.stop, 5⟩] := by
    with_unfolding_all rfl
  have hsecond : scan "===b" = .ok [⟨.symbol .strictEqual, 0⟩, ⟨.name "b", 3⟩, ⟨.stop, 4⟩] := by
    with_unfolding_all rfl
  have hmistake : scan "b'c" = .error ⟨.unterminatedText, 1⟩ := by with_unfolding_all rfl
  have hne : "\r\n" ≠ "" := by decide
  have hspace : ∀ c ∈ "\r\n".toList, Text.isSpace c = true := by simp [Text.isSpace]
  obtain ⟨us, hus, -, hscan, -⟩ := scan_append_of_isSpace hne hspace hfirst "===b"
  obtain ⟨-, -, -, -, herror⟩ := scan_append_of_isSpace hne hspace hfirst "b'c"
  have hus : us = [⟨.text "é", 0⟩, ⟨.symbol .less, 4⟩] := by
    have hinit := congrArg List.dropLast hus
    rwa [List.dropLast_concat, eq_comm] at hinit
  refine ⟨hfirst, ?_, herror _ hmistake⟩
  rw [hscan _ hsecond, hus]
  rfl

end TemplateExpr.Token
