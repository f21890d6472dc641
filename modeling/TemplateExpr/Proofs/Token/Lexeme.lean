import TemplateExpr.Proofs.Token.Spelling

namespace TemplateExpr.Token

inductive Lexeme : Token → List Char → Prop
  | number {m p n} : IsMantissa m → IsPower p → Numeral.ofText? (m ++ p) = some n →
      Lexeme (.number n.toDouble) (m ++ p)
  | other {t cs} : (∀ x, t ≠ .number x) → Spells t cs → Lexeme t cs

variable {offset : Nat} {c : Char} {cs ds q rest : List Char} {t u : Token}

theorem ofText?_isPower {p : List Char} (hp : IsPower p) : Numeral.ofText? p = none := by
  cases hp with
  | absent => rfl
  | present he => rcases he with rfl | rfl <;> rfl

theorem IsMantissa.exists_cons {m p : List Char} {n : Numeral} (hm : IsMantissa m) (hp : IsPower p)
    (hn : Numeral.ofText? (m ++ p) = some n) :
    ∃ c ds, m ++ p = c :: ds ∧ Text.isSpace c = false ∧
      (c.isDigit || c == '.' && startsWith Char.isDigit ds) = true := by
  have hdigit {d : Char} {ds : List Char} (h : ∀ c ∈ d :: ds, c.isDigit = true) (cs : List Char) :
      Text.isSpace d = false ∧ (d.isDigit || d == '.' && startsWith Char.isDigit cs) = true := by
    have hd := h d List.mem_cons_self
    exact ⟨isSpace_eq_false hd rfl, by rw [hd, Bool.true_or]⟩
  cases hm with
  | whole hds =>
      cases m with
      | nil => rw [List.nil_append, ofText?_isPower hp] at hn; cases hn
      | cons d ds => exact ⟨d, _, rfl, hdigit hds _⟩
  | @pointed ds fs hds hfs hne =>
      cases ds with
      | nil =>
          refine ⟨'.', fs ++ p, rfl, rfl, ?_⟩
          rw [startsWith_append (startsWith_of_digits hfs hne)]
          rfl
      | cons d ds => exact ⟨d, _, rfl, hdigit hds _⟩

theorem read_number (h : (c.isDigit || c == '.' && startsWith Char.isDigit cs) = true) :
    read offset c cs = readNumber offset (c :: cs) := by
  rw [read, if_pos h]

theorem isNumber_append (h : (c.isDigit || c == '.' && startsWith Char.isDigit cs) = true)
    (rest : List Char) :
    (c.isDigit || c == '.' && startsWith Char.isDigit (cs ++ rest)) = true := by
  rcases Bool.or_eq_true_iff.1 h with hc | hc
  · rw [hc, Bool.true_or]
  · obtain ⟨hc, hcs⟩ := Bool.and_eq_true_iff.1 hc
    rw [hc, startsWith_append hcs, Bool.and_true, Bool.or_true]

theorem read_lexeme (h : Lexeme t cs) :
    ∃ c ds, cs = c :: ds ∧ Text.isSpace c = false ∧ ∀ offset rest, Ends t rest →
      read offset c (ds ++ rest) = .ok (t, rest) := by
  cases h with
  | @number m p n hm hp hn =>
      obtain ⟨c, ds, hcs, hspace, hnumber⟩ := hm.exists_cons hp hn
      refine ⟨c, ds, hcs, hspace, ?_⟩
      intro offset rest hrest
      rw [read_number (isNumber_append hnumber rest), ← List.cons_append, ← hcs, List.append_assoc]
      exact readNumber_of_isMantissa hm hp hn hrest.1 hrest.2
  | other _ hs =>
      obtain ⟨c, ds, hcs, hstarts, hread⟩ := read_spells hs
      exact ⟨c, ds, hcs, hstarts.isSpace_eq_false, hread⟩

theorem Lexeme.ne_stop (h : Lexeme t cs) : t ≠ .stop := by
  cases h with
  | number => simp
  | other _ hs => cases hs <;> simp

theorem Lexeme.eq_name {s : String} (h : Lexeme (.name s) cs) : cs = s.toList ∧ IsName s := by
  cases h with
  | other _ hs =>
      cases hs with
      | name hs => exact ⟨rfl, hs⟩

theorem ends_nil (t : Token) : Ends t [] := by
  cases t with
  | number x => exact ⟨rfl, by simp⟩
  | symbol s => cases s <;> first | rfl | trivial
  | name s => rfl
  | word w => rfl
  | _ => trivial

section

variable {quote : Char} {start : Nat} {body : List Char}

theorem quotes_of_readText (h : readText quote start offset cs = .ok (body, rest)) :
    ∃ ds, cs = ds ++ quote :: rest ∧ Quotes quote body ds := by
  fun_induction readText quote start offset cs generalizing body rest with
  | case1 => cases h
  | case2 offset a b c d cs u hu ih =>
      obtain ⟨⟨_, r⟩, hr, he⟩ := bind_eq_ok.1 h
      cases he
      obtain ⟨ds, rfl, hds⟩ := ih hr
      exact ⟨'\\' :: 'u' :: a :: b :: c :: d :: ds, rfl, .unit hu hds⟩
  | case3 => cases h
  | case4 => cases h
  | case5 => cases h
  | case6 offset c cs hc ih =>
      obtain ⟨⟨_, r⟩, hr, he⟩ := bind_eq_ok.1 h
      cases he
      obtain ⟨ds, rfl, hds⟩ := ih hr
      exact ⟨'\\' :: c :: ds, rfl, .escape hc hds⟩
  | case7 => cases h
  | case8 =>
      cases h
      exact ⟨[], rfl, .nil⟩
  | case9 offset c cs _ hlast hescape hn hq ih =>
      obtain ⟨⟨_, r⟩, hr, he⟩ := bind_eq_ok.1 h
      cases he
      obtain ⟨ds, rfl, hds⟩ := ih hr
      have hb : c ≠ '\\' := by
        intro hc
        cases hcs : ds ++ quote :: rest with
        | nil => exact hlast hc hcs
        | cons d tail => exact hescape d tail hc hcs
      exact ⟨c :: ds, rfl, .plain hq hb hn hds⟩

end

theorem spells_of_ofWord {w : String} (hw : Text.isIdentifier w.toList)
    (h : ofWord offset w = .ok t) : (∀ x, t ≠ .number x) ∧ Spells t w.toList := by
  unfold ofWord at h
  split at h
  · rename_i k hk
    cases h
    have hspelling : k.spelling = w := by simpa using List.find?_some hk
    rw [← hspelling]
    exact ⟨by simp, .word k⟩
  · rename_i hk
    split at h
    · cases h
    · rename_i hreserved
      cases h
      exact ⟨by simp, .name ⟨hw, by simpa using hk, hreserved⟩⟩

theorem spells_of_readWord (hc : Text.isIdentifierStart c)
    (h : readWord offset (c :: cs) = .ok (t, rest)) :
    ∃ ds, cs = ds ++ rest ∧ (∀ x, t ≠ .number x) ∧ Spells t (c :: ds) := by
  obtain ⟨u, hu, he⟩ := bind_eq_ok.1 h
  have hpart : Text.isIdentifierPart c = true := by simp [Text.isIdentifierPart, hc]
  rw [List.takeWhile_cons_of_pos hpart] at hu
  simp only [List.dropWhile_cons_of_pos hpart, Except.ok.injEq, Prod.mk.injEq] at he
  obtain ⟨rfl, rfl⟩ := he
  refine ⟨cs.takeWhile Text.isIdentifierPart, List.takeWhile_append_dropWhile.symm, ?_⟩
  have hspells := spells_of_ofWord (by simp [Text.isIdentifier, hc]) hu
  rwa [String.toList_ofList] at hspells

theorem spells_of_readSymbol (h : readSymbol offset c cs = .ok (t, rest)) :
    ∃ ds s, cs = ds ++ rest ∧ t = .symbol s ∧ s.spelling.toList = c :: ds := by
  unfold readSymbol at h
  split at h
  case h_18 | h_19 | h_21 => cases h
  case h_23 => split at h <;> cases h
  all_goals cases h
  case h_13 | h_15 => exact ⟨['='], _, rfl, rfl, rfl⟩
  case h_17 | h_20 => exact ⟨['=', '='], _, rfl, rfl, rfl⟩
  all_goals exact ⟨[], _, rfl, rfl, rfl⟩

theorem lexeme_of_read (h : read offset c cs = .ok (t, rest)) :
    ∃ ds, cs = ds ++ rest ∧ Lexeme t (c :: ds) := by
  unfold read at h
  split at h
  · obtain ⟨m, p, n, hm, hp, hn, rfl, hcs⟩ := isMantissa_of_readNumber h
    obtain ⟨d, ds, hmp, -, -⟩ := hm.exists_cons hp hn
    rw [← List.append_assoc, hmp, List.cons_append] at hcs
    obtain ⟨rfl, rfl⟩ := List.cons.inj hcs
    exact ⟨ds, rfl, hmp ▸ .number hm hp hn⟩
  split at h
  · rename_i hquote
    obtain ⟨⟨body, r⟩, hr, he⟩ := bind_eq_ok.1 h
    cases he
    obtain ⟨ds, rfl, hds⟩ := quotes_of_readText hr
    exact ⟨ds ++ [c], by simp, .other (by simp) (.text hquote hds)⟩
  split at h
  · rename_i hc
    obtain ⟨ds, rfl, hne, hs⟩ := spells_of_readWord hc h
    exact ⟨ds, rfl, .other hne hs⟩
  · obtain ⟨ds, s, rfl, rfl, hs⟩ := spells_of_readSymbol h
    exact ⟨ds, rfl, .other (by simp) (hs ▸ .symbol s)⟩

theorem readWord_length_le {w : List Char} (hw : ∀ d ∈ w, Text.isIdentifierPart d = true)
    (h : readWord offset (w ++ q) = .ok (u, rest)) : rest.length ≤ q.length := by
  obtain ⟨_, _, he⟩ := bind_eq_ok.1 h
  rw [List.dropWhile_append_of_pos hw] at he
  cases he
  exact (List.dropWhile_suffix _).length_le

theorem Symbol.ends_or_single (s : Symbol) {c : Char} {ds : List Char}
    (h : s.spelling.toList = c :: ds) (q : List Char) : Ends (.symbol s) q ∨ ds = [] := by
  cases s
  case strictEqual | strictUnequal | lessEqual | greaterEqual => exact .inl trivial
  all_goals (simp only [Symbol.spelling] at h; cases h; exact .inr rfl)

theorem Spells.length_le (hs : Spells t (c :: ds)) (ht : ∀ x, t ≠ .number x)
    (h : read offset c (ds ++ q) = .ok (u, rest)) : rest.length ≤ q.length := by
  by_cases hends : Ends t q
  · obtain ⟨_, _, hcs, -, hread⟩ := read_spells hs
    obtain ⟨rfl, rfl⟩ := List.cons.inj hcs
    cases (hread offset q hends).symm.trans h
    exact Nat.le_refl _
  · generalize hcs : c :: ds = cs at hs
    cases hs with
    | @number n => exact absurd rfl (ht (.ofInt n))
    | text => exact absurd trivial hends
    | name hs =>
        obtain ⟨d, es, he, hstart, hpart⟩ := hs.exists_cons
        obtain ⟨rfl, rfl⟩ := List.cons.inj (hcs.trans he)
        rw [read_of_isIdentifierStart hstart, ← List.cons_append] at h
        exact readWord_length_le hpart h
    | word w =>
        obtain ⟨d, es, he, hstart, hpart⟩ := Keyword.exists_cons w
        obtain ⟨rfl, rfl⟩ := List.cons.inj (hcs.trans he)
        rw [read_of_isIdentifierStart hstart, ← List.cons_append] at h
        exact readWord_length_le hpart h
    | symbol s =>
        obtain rfl := (Symbol.ends_or_single s hcs.symm q).resolve_left hends
        have hlt := read_length_lt h
        simp only [List.nil_append, List.length_cons] at hlt
        omega

theorem Lexeme.length_le (hl : Lexeme t (c :: ds))
    (h : read offset c (ds ++ q) = .ok (u, rest)) : rest.length ≤ q.length := by
  generalize hcs : c :: ds = cs at hl
  cases hl with
  | @number m p n hm hp hn =>
      obtain ⟨d, es, hmp, -, hnumber⟩ := hm.exists_cons hp hn
      obtain ⟨rfl, rfl⟩ := List.cons.inj (hcs.trans hmp)
      rw [read_number (isNumber_append hnumber q), ← List.cons_append, hcs, List.append_assoc] at h
      exact readNumber_length_le hm hp h
  | other ht hs =>
      subst hcs
      exact hs.length_le ht h

end TemplateExpr.Token
