import TemplateExpr.Proofs.Text.Units
import TemplateExpr.Proofs.Token.Tiling

namespace TemplateExpr.Token

def quoted (quote : Char) (body : List Char) : String :=
  String.ofList (quote :: (body ++ [quote]))

def shortEscapes : List (Char × Char) :=
  [('n', '\n'), ('t', '\t'), ('r', '\r'), ('b', '\x08'), ('f', '\x0c'), ('v', '\x0b'),
    ('0', '\x00')]

inductive UnitEscape : Nat → List Char → Prop
  | mk {u a b c d} : Text.IsHex u a b c d → UnitEscape u ['\\', 'u', a, b, c, d]

inductive Writes (quote : Char) : Char → List Char → Prop
  | plain {c} : c ≠ quote → c ≠ '\\' → c ≠ '\n' → Writes quote c [c]
  | short {c e} : (e, c) ∈ shortEscapes → Writes quote c ['\\', e]
  | unit {c ds} : UnitEscape c.toNat ds → Writes quote c ds
  | escaped {c} : c ∉ 'u' :: shortEscapes.map Prod.fst → Writes quote c ['\\', c]

variable {quote : Char} {c : Char} {cs ds es : List Char}

theorem unescape_of_mem {e : Char} (h : (e, c) ∈ shortEscapes) : e ≠ 'u' ∧ unescape e = c := by
  have hall : ∀ p ∈ shortEscapes, p.1 ≠ 'u' ∧ unescape p.1 = p.2 := by decide
  exact hall _ h

theorem unescape_of_not_mem (h : c ∉ shortEscapes.map Prod.fst) : unescape c = c := by
  unfold unescape
  split <;> simp_all [shortEscapes]

theorem UnitEscape.quotes {u : Nat} (h : UnitEscape u ds) (hes : Quotes quote cs es) :
    Quotes quote (Text.ofUnit u :: cs) (ds ++ es) := by
  cases h with
  | mk hx => exact .unit hx.unitOfHex? hes

theorem Writes.quotes (h : Writes quote c ds) (hes : Quotes quote cs es) :
    Quotes quote (c :: cs) (ds ++ es) := by
  cases h with
  | plain hq hb hn => exact .plain hq hb hn hes
  | short he =>
      obtain ⟨hu, hc⟩ := unescape_of_mem he
      rw [← hc]
      exact .escape hu hes
  | unit hu =>
      have hunit := hu.quotes hes
      rwa [Text.ofUnit_toNat] at hunit
  | escaped hc =>
      have hescape := Quotes.escape (List.ne_of_not_mem_cons hc) hes
      rwa [unescape_of_not_mem (List.not_mem_of_not_mem_cons hc)] at hescape

theorem quotes_of_writes {parts : List (List Char)} (h : List.Forall₂ (Writes quote) cs parts) :
    Quotes quote cs parts.flatten := by
  induction h with
  | nil => exact .nil
  | cons hc _ ih => exact hc.quotes ih

theorem quotes_of_unitEscapes {us : List Nat} {parts : List (List Char)}
    (h : List.Forall₂ UnitEscape us parts) : Quotes quote (us.map Text.ofUnit) parts.flatten := by
  induction h with
  | nil => exact .nil
  | cons hu _ ih => exact hu.quotes ih

theorem scan_quoted (hquote : quote = '"' ∨ quote = '\'') (h : Quotes quote cs ds) :
    scan (quoted quote ds) =
      .ok [⟨.text (String.ofList cs), 0⟩, ⟨.stop, (quoted quote ds).utf8ByteSize⟩] := by
  have hlexeme : Lexeme (.text (String.ofList cs)) (quoted quote ds).toList := by
    rw [quoted, String.toList_ofList]
    exact .other (by simp) (.text hquote h)
  rw [scan, scanFrom_lexeme hlexeme, size_toList, Nat.zero_add]

theorem scan_quoted_of_writes (hquote : quote = '"' ∨ quote = '\'') {s : String}
    {parts : List (List Char)} (h : List.Forall₂ (Writes quote) s.toList parts) :
    scan (quoted quote parts.flatten) =
      .ok [⟨.text s, 0⟩, ⟨.stop, (quoted quote parts.flatten).utf8ByteSize⟩] := by
  rw [scan_quoted hquote (quotes_of_writes h), String.ofList_toList]

theorem scan_quoted_of_writes_of_digits :
    let parts := ["\\u00e9".toList, ['4'], "\\0".toList, "\\\n".toList, "\\\"".toList,
      "\\u00E9".toList]
    List.Forall₂ (Writes '"') "é4\x00\n\"é".toList parts ∧
      quoted '"' parts.flatten = "\"\\u00e94\\0\\\n\\\"\\u00E9\"" ∧
      scan (quoted '"' parts.flatten) = .ok [⟨.text "é4\x00\n\"é", 0⟩, ⟨.stop, 21⟩] := by
  intro parts
  have hsmall : UnitEscape 'é'.toNat "\\u00e9".toList := .mk (by decide)
  have hlarge : UnitEscape 'é'.toNat "\\u00E9".toList := .mk (by decide)
  have hdigit : Writes '"' '4' ['4'] := .plain (by decide) (by decide) (by decide)
  have hwrites : List.Forall₂ (Writes '"') "é4\x00\n\"é".toList parts :=
    .cons (.unit hsmall) (.cons hdigit (.cons (.short (by decide)) (.cons (.escaped (by decide))
      (.cons (.escaped (by decide)) (.cons (.unit hlarge) .nil)))))
  exact ⟨hwrites, rfl, scan_quoted_of_writes (.inl rfl) hwrites⟩

theorem scan_quoted_units (hquote : quote = '"' ∨ quote = '\'') {us : List Nat}
    {parts : List (List Char)} (h : List.Forall₂ UnitEscape us parts) :
    scan (quoted quote parts.flatten) =
      .ok [⟨.text (String.ofList (us.map Text.ofUnit)), 0⟩,
        ⟨.stop, (quoted quote parts.flatten).utf8ByteSize⟩] :=
  scan_quoted hquote (quotes_of_unitEscapes h)

theorem scan_quoted_unitEscapes_iff (hquote : quote = '"' ∨ quote = '\'') :
    (∀ us parts, List.Forall₂ UnitEscape us parts →
      scan (quoted quote parts.flatten) =
        .ok [⟨.text (String.ofList (us.map Text.ofUnit)), 0⟩,
          ⟨.stop, (quoted quote parts.flatten).utf8ByteSize⟩]) ∧
    ∀ s parts, List.Forall₂ UnitEscape (Text.units s.toList) parts →
      (scan (quoted quote parts.flatten) =
          .ok [⟨.text s, 0⟩, ⟨.stop, (quoted quote parts.flatten).utf8ByteSize⟩] ↔
        ∀ c ∈ s.toList, c.toNat < 0x10000) := by
  refine ⟨fun us parts h => scan_quoted_units hquote h, fun s parts h => ?_⟩
  rw [scan_quoted_units hquote h, ← Text.map_ofUnit_units]
  constructor
  · intro hs
    have htext : String.ofList ((Text.units s.toList).map Text.ofUnit) = s := by
      simpa using hs
    have hlist := congrArg String.toList htext
    rwa [String.toList_ofList] at hlist
  · intro hs
    rw [hs, String.ofList_toList]

theorem scan_quoted_unitEscapes_iff_of_accent :
    List.Forall₂ UnitEscape (Text.units "é".toList) ["\\u00E9".toList] ∧
      scan (quoted '"' ["\\u00E9".toList].flatten) = .ok [⟨.text "é", 0⟩, ⟨.stop, 8⟩] := by
  have hescape : UnitEscape 'é'.toNat "\\u00E9".toList := .mk (by decide)
  have hparts : List.Forall₂ UnitEscape (Text.units "é".toList) ["\\u00E9".toList] :=
    .cons hescape .nil
  exact ⟨hparts, ((scan_quoted_unitEscapes_iff (.inl rfl)).2 "é" _ hparts).2 (by simp)⟩

theorem scan_surrogate_pair_splits :
    let parts := ["\\ud83d".toList, "\\ude00".toList]
    List.Forall₂ UnitEscape (Text.units "😀".toList) parts ∧
      quoted '\'' parts.flatten = "'\\ud83d\\ude00'" ∧
      scan (quoted '\'' parts.flatten) = .ok [⟨.text "\uFFFD\uFFFD", 0⟩, ⟨.stop, 14⟩] ∧
      "\uFFFD\uFFFD" ≠ "😀" := by
  intro parts
  have hhigh : UnitEscape 0xD83D "\\ud83d".toList := .mk (by decide)
  have hlow : UnitEscape 0xDE00 "\\ude00".toList := .mk (by decide)
  have hparts : List.Forall₂ UnitEscape (Text.units "😀".toList) parts :=
    .cons hhigh (.cons hlow .nil)
  exact ⟨hparts, rfl, scan_quoted_units (.inr rfl) hparts, by decide⟩

end TemplateExpr.Token
