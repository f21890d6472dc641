import TemplateExpr.Proofs.Token.Number
import TemplateExpr.Proofs.Token.Whole
import TemplateExpr.Token.Scan

namespace TemplateExpr.Token

def IsName (s : String) : Prop :=
  Text.isIdentifier s.toList ∧ (∀ k ∈ Keyword.all, k.spelling ≠ s) ∧ s ∉ reserved

instance (s : String) : Decidable (IsName s) :=
  inferInstanceAs (Decidable (_ ∧ _ ∧ _))

inductive Quotes (quote : Char) : List Char → List Char → Prop
  | nil : Quotes quote [] []
  | plain {c cs ds} : c ≠ quote → c ≠ '\\' → c ≠ '\n' → Quotes quote cs ds →
      Quotes quote (c :: cs) (c :: ds)
  | escape {c cs ds} : c ≠ 'u' → Quotes quote cs ds →
      Quotes quote (unescape c :: cs) ('\\' :: c :: ds)
  | unit {a b c d u cs ds} : Text.unitOfHex? a b c d = some u → Quotes quote cs ds →
      Quotes quote (Text.ofUnit u :: cs) ('\\' :: 'u' :: a :: b :: c :: d :: ds)

-- The whole numbers are written in decimal digits; larger numbers and fractions are left out.
inductive Spells : Token → List Char → Prop
  | number {n : Nat} : n < Nat.pow 2 53 → Spells (.number (.ofInt n)) (Nat.toDigits 10 n)
  | text {quote cs ds} : quote = '"' ∨ quote = '\'' → Quotes quote cs ds →
      Spells (.text (String.ofList cs)) (quote :: (ds ++ [quote]))
  | name {s} : IsName s → Spells (.name s) s.toList
  | word (w : Keyword) : Spells (.word w) w.spelling.toList
  | symbol (s : Symbol) : Spells (.symbol s) s.spelling.toList

theorem exists_quotes {quote : Char} (hquote : quote = '"' ∨ quote = '\'') (cs : List Char) :
    ∃ ds, Quotes quote cs ds := by
  induction cs with
  | nil => exact ⟨[], .nil⟩
  | cons c cs ih =>
      obtain ⟨ds, h⟩ := ih
      by_cases hself : c = quote ∨ c = '\\'
      · have hc : unescape c = c ∧ c ≠ 'u' := by
          rcases hself with rfl | rfl
          · rcases hquote with rfl | rfl <;> exact ⟨rfl, by decide⟩
          · exact ⟨rfl, by decide⟩
        have hescape := Quotes.escape hc.2 h
        rw [hc.1] at hescape
        exact ⟨_, hescape⟩
      by_cases hn : c = '\n'
      · subst hn
        exact ⟨_, .escape (c := 'n') (by decide) h⟩
      · exact ⟨_, .plain (fun hc => hself (.inl hc)) (fun hc => hself (.inr hc)) hn h⟩

def Ends : Token → List Char → Prop
  | .number _, rest => startsWith Text.isIdentifierPart rest = false ∧
      ∀ cs, rest = '.' :: cs → startsWith Char.isDigit cs = false
  | .name _, rest => startsWith Text.isIdentifierPart rest = false
  | .word _, rest => startsWith Text.isIdentifierPart rest = false
  | .symbol .dot, rest => startsWith Char.isDigit rest = false
  | .symbol .bang, rest => startsWith (· == '=') rest = false
  | .symbol .less, rest => startsWith (· == '=') rest = false
  | .symbol .greater, rest => startsWith (· == '=') rest = false
  | _, _ => True

section

variable {quote : Char} {start offset : Nat} {rest : List Char}

theorem readText_plain {c : Char} (hb : c ≠ '\\') :
    readText quote start offset (c :: rest) =
      if c = '\n' then .error ⟨.unterminatedText, start⟩
      else if c = quote then .ok ([], rest)
      else (do
        let (body, rest) ← readText quote start (offset + c.utf8Size) rest
        .ok (c :: body, rest)) := by
  rw [readText.eq_6] <;> simp [hb]

theorem readText_of_quotes (hquote : quote = '"' ∨ quote = '\'') {cs ds : List Char}
    (h : Quotes quote cs ds) (offset : Nat) :
    readText quote start offset (ds ++ quote :: rest) = .ok (cs, rest) := by
  have hb : quote ≠ '\\' := by rcases hquote with rfl | rfl <;> decide
  have hn : quote ≠ '\n' := by rcases hquote with rfl | rfl <;> decide
  induction h generalizing offset with
  | nil => rw [List.nil_append, readText_plain hb, if_neg hn, if_pos rfl]
  | plain hcq hcb hcn _ ih =>
      rw [List.cons_append, readText_plain hcb, if_neg hcn, if_neg hcq, ih]
      rfl
  | escape hu _ ih =>
      rw [List.cons_append, List.cons_append, readText.eq_5 _ _ _ _ _ hu, ih]
      rfl
  | unit hx _ ih =>
      simp only [List.cons_append, readText.eq_2, hx, ih]
      rfl

end

section

variable {offset : Nat} {rest : List Char}

theorem readNumber_toDigits {n : Nat} (hn : n < Nat.pow 2 53) (offset : Nat)
    (hrest : Ends (.number (.ofInt n)) rest) :
    readNumber offset (Nat.toDigits 10 n ++ rest) = .ok (.number (.ofInt n), rest) := by
  have hdigits : ∀ c ∈ Nat.toDigits 10 n, c.isDigit = true := fun c =>
    Nat.isDigit_of_mem_toDigits (by decide) (by decide)
  have hnumeral : Numeral.ofText? (Nat.toDigits 10 n ++ []) = some ⟨false, ⟨n, 0⟩⟩ := by
    rw [List.append_nil, Numeral.ofText?_toDigits]
  have hread : readNumber offset (Nat.toDigits 10 n ++ ([] ++ rest)) = _ :=
    readNumber_of_isMantissa (.whole hdigits) .absent hnumeral hrest.1 hrest.2
  rwa [List.nil_append, Numeral.toDouble, Decimal.toDouble_whole hn] at hread

theorem readWord_of_part {w : List Char} (hw : ∀ c ∈ w, Text.isIdentifierPart c = true)
    (hrest : startsWith Text.isIdentifierPart rest = false) {t : Token}
    (ht : ofWord offset (String.ofList w) = .ok t) :
    readWord offset (w ++ rest) = .ok (t, rest) := by
  rw [readWord, takeWhile_append_of_startsWith hw hrest, dropWhile_append_of_startsWith hw hrest, ht]
  rfl

theorem IsName.ofWord {s : String} (h : IsName s) : ofWord offset s = .ok (.name s) := by
  obtain ⟨-, hkey, hres⟩ := h
  have hfind : Keyword.all.find? (·.spelling = s) = none := by simpa using hkey
  simp only [Token.ofWord, hfind, if_neg hres]

theorem ofWord_spelling (w : Keyword) : ofWord offset w.spelling = .ok (.word w) := by
  cases w <;> rfl

theorem eq_false_of_isSpace {p : Char → Bool} {c : Char} (h : Text.isSpace c = true)
    (hp : [' ', '\t', '\n', '\r'].any p = false) : p c = false := by
  have hnot : ∀ d ∈ [' ', '\t', '\n', '\r'], p d = false := by simpa using hp
  simp only [Text.isSpace, Bool.or_eq_true, beq_iff_eq] at h
  rcases h with ((rfl | rfl) | rfl) | rfl <;> exact hnot _ (by simp)

theorem isSpace_eq_false {p : Char → Bool} {c : Char} (h : p c = true)
    (hp : [' ', '\t', '\n', '\r'].any p = false) : Text.isSpace c = false := by
  cases hs : Text.isSpace c with
  | false => rfl
  | true => exact h.symm.trans (eq_false_of_isSpace hs hp)

theorem isDigit_eq_false_of_isAlpha {c : Char} (h : c.isAlpha = true) : c.isDigit = false := by
  have hletter : 'A'.val ≤ c.val := by
    rcases Bool.or_eq_true_iff.1 h with hupper | hlower
    · exact (of_decide_eq_true hupper).1
    · have hlower := of_decide_eq_true (Bool.and_eq_true_iff.1 hlower).1
      exact UInt32.le_trans (by decide : 'A'.val ≤ 'a'.val) hlower
  refine Bool.eq_false_iff.2 fun hdigit => ?_
  have hnine : c.toNat ≤ '9'.toNat := (Char.isDigit_iff_toNat.1 hdigit).2
  exact absurd (Nat.le_trans (UInt32.le_iff_toNat_le.1 hletter) hnine) (by decide)

theorem isIdentifierStart_cases {c : Char} (h : Text.isIdentifierStart c = true) :
    Text.isSpace c = false ∧ c.isDigit = false ∧ c ≠ '.' ∧ c ≠ '"' ∧ c ≠ '\'' := by
  have hne : ∀ d : Char, Text.isIdentifierStart d = false → c ≠ d := by
    rintro d hd rfl
    simp [h] at hd
  have hspace : Text.isSpace c = false := isSpace_eq_false h rfl
  have hdigit : c.isDigit = false := by
    simp only [Text.isIdentifierStart, Bool.or_eq_true, beq_iff_eq] at h
    rcases h with (h | rfl) | rfl
    · exact isDigit_eq_false_of_isAlpha h
    · decide
    · decide
  exact ⟨hspace, hdigit, hne '.' (by decide), hne '"' (by decide), hne '\'' (by decide)⟩

theorem readSymbol_spelling (s : Symbol) {c : Char} {cs : List Char}
    (h : s.spelling.toList = c :: cs) (hrest : Ends (.symbol s) rest) :
    readSymbol offset c (cs ++ rest) = .ok (.symbol s, rest) := by
  cases s
  case bang | less | greater =>
    simp only [Symbol.spelling, String.reduceToList, List.cons.injEq, List.nil_eq] at h
    obtain ⟨rfl, rfl⟩ := h
    rcases rest with _ | ⟨d, rest⟩
    · rfl
    · have hd : d ≠ '=' := by simpa [Ends, startsWith] using hrest
      simp [readSymbol, hd]
  all_goals (simp only [Symbol.spelling] at h; cases h; rfl)

theorem IsName.exists_cons {s : String} (h : IsName s) :
    ∃ c cs, s.toList = c :: cs ∧ Text.isIdentifierStart c = true ∧
      ∀ d ∈ c :: cs, Text.isIdentifierPart d = true := by
  have hid := h.1
  cases hs : s.toList with
  | nil => simp [hs, Text.isIdentifier] at hid
  | cons c cs =>
      simp only [hs, Text.isIdentifier, Bool.and_eq_true, List.all_eq_true] at hid
      refine ⟨c, cs, rfl, hid.1, ?_⟩
      simpa [Text.isIdentifierPart, hid.1] using hid.2

theorem Keyword.exists_cons (w : Keyword) :
    ∃ c cs, w.spelling.toList = c :: cs ∧ Text.isIdentifierStart c = true ∧
      ∀ d ∈ c :: cs, Text.isIdentifierPart d = true := by
  cases w <;> exact ⟨_, _, rfl, rfl, List.all_eq_true.1 rfl⟩

theorem read_of_isIdentifierStart {c : Char} {cs : List Char} (h : Text.isIdentifierStart c = true) :
    read offset c cs = readWord offset (c :: cs) := by
  obtain ⟨-, hdigit, hdot, hquote, hquote'⟩ := isIdentifierStart_cases h
  simp [read, hdigit, hdot, hquote, hquote', h]

theorem read_symbol (s : Symbol) {c : Char} {cs : List Char} (h : s.spelling.toList = c :: cs)
    (hrest : Ends (.symbol s) rest) :
    read offset c (cs ++ rest) = readSymbol offset c (cs ++ rest) := by
  cases s
  case dot =>
    have hdigit : startsWith Char.isDigit rest = false := hrest
    obtain ⟨rfl, rfl⟩ : '.' = c ∧ [] = cs := by simpa [Symbol.spelling] using h
    have hstart : Text.isIdentifierStart '.' = false := by decide
    simp [read, hdigit, hstart, Char.isDigit]
  all_goals (simp only [Symbol.spelling] at h; cases h; rfl)

def Starts : Token → Char → Prop
  | .number _, c => c.isDigit = true
  | .text _, c => c = '"' ∨ c = '\''
  | .name _, c => Text.isIdentifierStart c = true
  | .word _, c => Text.isIdentifierStart c = true
  | .symbol s, c => s.spelling.toList.head? = some c
  | .stop, _ => False

theorem Starts.isSpace_eq_false {t : Token} {c : Char} (h : Starts t c) :
    Text.isSpace c = false := by
  cases t with
  | number => exact Token.isSpace_eq_false h rfl
  | text => rcases h with rfl | rfl <;> rfl
  | name => exact (isIdentifierStart_cases h).1
  | word => exact (isIdentifierStart_cases h).1
  | symbol s => cases s <;> (cases h; rfl)
  | stop => exact h.elim

theorem read_spells {t : Token} {cs : List Char} (h : Spells t cs) :
    ∃ c ds, cs = c :: ds ∧ Starts t c ∧ ∀ offset rest, Ends t rest →
      read offset c (ds ++ rest) = .ok (t, rest) := by
  cases h with
  | @number n hn =>
      obtain ⟨c, ds, hcs⟩ := List.exists_cons_of_ne_nil (Nat.toDigits_ne_nil : Nat.toDigits 10 n ≠ [])
      have hdigit : c.isDigit = true :=
        Nat.isDigit_of_mem_toDigits (by decide) (by decide) (hcs ▸ List.mem_cons_self)
      refine ⟨c, ds, hcs, hdigit, ?_⟩
      intro offset rest hrest
      have hread := readNumber_toDigits hn offset hrest
      rw [hcs, List.cons_append] at hread
      rw [read, hdigit, Bool.true_or, if_pos rfl, hread]
  | @text quote cs ds hquote hq =>
      refine ⟨quote, ds ++ [quote], rfl, hquote, ?_⟩
      intro offset rest _
      have hnumber : (quote.isDigit || quote == '.' && startsWith Char.isDigit (ds ++ [quote] ++ rest))
          = false := by
        rcases hquote with rfl | rfl <;> rfl
      rw [read, hnumber, if_neg (by decide), if_pos hquote, List.append_assoc,
        List.singleton_append, readText_of_quotes hquote hq]
      rfl
  | name hs =>
      obtain ⟨c, ds, hcs, hstart, hpart⟩ := hs.exists_cons
      refine ⟨c, ds, hcs, hstart, ?_⟩
      intro offset rest hrest
      rw [read_of_isIdentifierStart hstart, ← List.cons_append]
      exact readWord_of_part hpart hrest (by rw [← hcs, String.ofList_toList, hs.ofWord])
  | word w =>
      obtain ⟨c, ds, hcs, hstart, hpart⟩ := Keyword.exists_cons w
      refine ⟨c, ds, hcs, hstart, ?_⟩
      intro offset rest hrest
      rw [read_of_isIdentifierStart hstart, ← List.cons_append]
      exact readWord_of_part hpart hrest (by rw [← hcs, String.ofList_toList, ofWord_spelling])
  | symbol s =>
      obtain ⟨c, ds, hcs⟩ : ∃ c ds, s.spelling.toList = c :: ds := by
        cases s <;> exact ⟨_, _, rfl⟩
      refine ⟨c, ds, hcs, congrArg List.head? hcs, ?_⟩
      intro offset rest hrest
      rw [read_symbol s hcs hrest, readSymbol_spelling s hcs hrest]

end

theorem scanFrom_append_of_isSpace {ws : List Char} (hws : ∀ c ∈ ws, Text.isSpace c = true)
    (offset : Nat) (cs : List Char) :
    scanFrom offset (ws ++ cs) = scanFrom (offset + Text.size ws) cs := by
  rw [scanFrom_eq, scanFrom_eq (offset + Text.size ws)]
  simp only [List.takeWhile_append_of_pos hws, List.dropWhile_append_of_pos hws, Text.size_append,
    Nat.add_assoc]

theorem scanFrom_token {offset : Nat} {ws ds rest : List Char} {c : Char} {t : Token}
    (hws : ∀ c ∈ ws, Text.isSpace c = true) (hc : Text.isSpace c = false)
    (hread : read (offset + Text.size ws) c (ds ++ rest) = .ok (t, rest)) :
    scanFrom offset (ws ++ (c :: ds ++ rest)) =
      (scanFrom (offset + Text.size ws + Text.size (c :: ds)) rest).map
        (⟨t, offset + Text.size ws⟩ :: ·) := by
  have hstarts : startsWith Text.isSpace (c :: ds ++ rest) = false := hc
  have hdrop : (ws ++ (c :: ds ++ rest)).dropWhile Text.isSpace = c :: (ds ++ rest) :=
    dropWhile_append_of_startsWith hws hstarts
  have hsize : Text.size (c :: (ds ++ rest)) - Text.size rest = Text.size (c :: ds) := by
    simp only [Text.size_cons, Text.size_append]
    omega
  rw [scanFrom_eq, hdrop, takeWhile_append_of_startsWith hws hstarts]
  simp only [hread, hsize]

theorem scanFrom_of_read {offset : Nat} {ws ds rest : List Char} {c : Char} {t : Token}
    {ts : List Located} (hws : ∀ c ∈ ws, Text.isSpace c = true) (hc : Text.isSpace c = false)
    (hread : read (offset + Text.size ws) c (ds ++ rest) = .ok (t, rest))
    (h : scanFrom (offset + Text.size ws + Text.size (c :: ds)) rest = .ok ts) :
    scanFrom offset (ws ++ (c :: ds ++ rest)) = .ok (⟨t, offset + Text.size ws⟩ :: ts) := by
  rw [scanFrom_token hws hc hread, h]
  rfl

end TemplateExpr.Token
