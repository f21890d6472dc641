import TemplateExpr.Proofs.Token.Tiling

namespace TemplateExpr

def Text.dropSize : Nat → List Char → List Char
  | _, [] => []
  | 0, cs => cs
  | n + 1, c :: cs => dropSize (n + 1 - c.utf8Size) cs

theorem Text.dropSize_append (pre rest : List Char) :
    dropSize (size pre) (pre ++ rest) = rest := by
  induction pre with
  | nil => cases rest <;> simp [dropSize]
  | cons c pre ih =>
      obtain ⟨k, hk⟩ := Nat.exists_eq_succ_of_ne_zero (Nat.ne_of_gt c.utf8Size_pos)
      have hsize : size (c :: pre) = k + size pre + 1 := by
        rw [size_cons, hk]
        omega
      have hrest : k + size pre + 1 - c.utf8Size = size pre := by
        rw [hk]
        omega
      rw [hsize, List.cons_append, dropSize, hrest, ih]

namespace Token

def numeral? (cs : List Char) : Option Numeral :=
  let (mantissa, rest) := mantissaLexeme cs
  let (mark, power, _) := exponentLexeme rest
  Numeral.ofText? (mantissa ++ (mark ++ power))

def numeralAt? (source : String) (offset : Nat) : Option Numeral :=
  match Text.dropSize offset source.toList with
  | [] => none
  | c :: cs =>
      if c.isDigit || c == '.' && startsWith Char.isDigit cs then numeral? (c :: cs) else none

theorem numeralAt?_digits (pre : List Char) {ds rest : List Char}
    (hds : ∀ d ∈ ds, d.isDigit = true) (hne : ds ≠ [])
    (h : startsWith Text.isIdentifierPart rest = false)
    (hpoint : ∀ cs, rest = '.' :: cs → startsWith Char.isDigit cs = false) :
    numeralAt? (String.ofList (pre ++ (ds ++ rest))) (Text.size pre) =
      some ⟨false, ⟨Numeral.digitValue ds, 0⟩⟩ := by
  obtain ⟨d, ds, rfl⟩ := List.exists_cons_of_ne_nil hne
  have hdigit : startsWith Char.isDigit rest = false :=
    startsWith_mono (fun _ => isIdentifierPart_of_isDigit) h
  have hmantissa := (IsMantissa.whole hds).mantissaLexeme_append hdigit hpoint
  have hnumeral : numeral? (d :: ds ++ rest) = some ⟨false, ⟨Numeral.digitValue (d :: ds), 0⟩⟩ := by
    simp only [numeral?, hmantissa, exponentLexeme_absent h, List.append_nil,
      Numeral.ofText?_digits hds hne]
  have hd : d.isDigit = true := hds d List.mem_cons_self
  rw [numeralAt?, String.toList_ofList, Text.dropSize_append]
  simpa [hd] using hnumeral

theorem number_of_readNumber {offset : Nat} {cs rest : List Char} {t : Token}
    (h : readNumber offset cs = .ok (t, rest)) {n : Numeral} (hn : numeral? cs = some n) :
    t = .number n.toDouble := by
  obtain ⟨-, -, m, hm, ht⟩ := readNumber_eq_ok rfl h
  cases hm.symm.trans hn
  exact ht

theorem Scans.exists_read {offset : Nat} {cs : List Char} {t : Located} {ts : List Located}
    (h : Scans offset cs (t :: ts)) (ht : t.offset = offset) :
    cs = [] ∨ ∃ c ds left, cs = c :: ds ∧ read offset c ds = .ok (t.token, left) := by
  have hnil {ws : List Char} (hws : offset + Text.size ws = offset) : ws = [] := by
    by_contra hne
    have := Text.size_pos hne
    omega
  cases h with
  | stop => exact .inl (hnil ht)
  | @token _ ws c ds rest _ _ _ _ _ hread =>
      cases hnil ht
      exact .inr ⟨c, ds ++ rest, rest, rfl, hread⟩

theorem number_of_numeralAt? {source : String} {ts : List Located} (hts : scan source = .ok ts)
    {t : Token} {o : Nat} (ht : ⟨t, o⟩ ∈ ts) {n : Numeral} (hn : numeralAt? source o = some n) :
    t = .number n.toDouble := by
  obtain ⟨pre, rest, us, hsource, ho, hscans⟩ := (scans_of_scanFrom hts).scans_of_mem ht
  have hdrop : Text.dropSize o source.toList = rest := by
    rw [hsource, show o = Text.size pre by simpa using ho, Text.dropSize_append]
  rw [numeralAt?, hdrop] at hn
  rcases hscans.exists_read rfl with rfl | ⟨c, ds, left, rfl, hread⟩
  · cases hn
  · dsimp only at hn hread
    split at hn
    · rename_i hstarts
      rw [read, if_pos hstarts] at hread
      exact number_of_readNumber hread hn
    · cases hn

end Token

end TemplateExpr
