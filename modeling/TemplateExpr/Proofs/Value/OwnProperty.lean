import TemplateExpr.Expr.Evaluate
import TemplateExpr.Proofs.Text.Units
import TemplateExpr.Proofs.Value.Spelled

namespace TemplateExpr

namespace Numeral

variable {ds : List Char}

theorem digitChar_of_isDigit {c : Char} (h : c.isDigit = true) :
    c.toNat - '0'.toNat < 10 ∧ (c.toNat - '0'.toNat).digitChar = c := by
  obtain ⟨hlower, hupper⟩ : 48 ≤ c.toNat ∧ c.toNat ≤ 57 := Char.isDigit_iff_toNat.1 h
  have hzero : '0'.toNat = 48 := rfl
  have hlt : c.toNat - '0'.toNat < 10 := by omega
  refine ⟨hlt, Char.toNat_inj.1 ?_⟩
  rw [Nat.toNat_digitChar_of_lt_ten hlt]
  omega

theorem digitValue_concat (ds : List Char) (c : Char) :
    digitValue (ds ++ [c]) = 10 * digitValue ds + (c.toNat - '0'.toNat) := by
  rw [digitValue, Nat.ofDigitChars_append, Nat.ofDigitChars_cons, Nat.ofDigitChars_nil, digitValue]

theorem toDigits_digitValue (h : IsWhole ds) : Nat.toDigits 10 (digitValue ds) = ds := by
  induction ds using List.reverseRecOn with
  | nil => exact absurd rfl h.1.1
  | append_singleton ds c ih =>
      obtain ⟨hlt, hchar⟩ := digitChar_of_isDigit (h.1.2 c (by simp))
      rw [digitValue_concat]
      by_cases hnil : ds = []
      · subst hnil
        rw [show digitValue [] = 0 from rfl, Nat.mul_zero, Nat.zero_add,
          Nat.toDigits_of_lt_base hlt, hchar, List.nil_append]
      · have hhead : ds.head? ≠ some '0' := by
          intro hzero
          have hsingle := h.2 (by rw [List.head?_append_of_ne_nil _ hnil, hzero])
          simpa [hnil] using congrArg List.length hsingle
        have hds := ih ⟨⟨hnil, fun d hd => h.1.2 d (List.mem_append_left _ hd)⟩,
          fun hzero => absurd hzero hhead⟩
        have hpos : 0 < digitValue ds := by
          refine Nat.pos_of_ne_zero fun hzero => hhead ?_
          rw [← hds, hzero]
          rfl
        rw [← Nat.toDigits_append_toDigits (by decide) hpos hlt, hds,
          Nat.toDigits_of_lt_base hlt, hchar]

theorem isWhole_iff : IsWhole ds ↔
    ¬ (ds.isEmpty || !ds.all Char.isDigit) ∧ ¬ (1 < ds.length && ds.head? == some '0') := by
  have hhead : (ds.head? = some '0' → ds = ['0']) ↔ ¬ (1 < ds.length ∧ ds.head? = some '0') := by
    match ds with
    | [] => simp
    | [c] => simp
    | c :: d :: ds => simp
  simp [IsWhole, IsDigits, hhead]

end Numeral

namespace Value

open Numeral

def IsIndex (key : String) (i : ℕ) : Prop :=
  IsWhole key.toList ∧ digitValue key.toList = i

-- What stands at the indices of an array, and at those of a text: its code units, each alone.
inductive Elements : Value → List Value → Prop
  | items (js : List Json) : Elements (.json (.array js)) (js.map .json)
  | units (s : String) : Elements (.text s)
      ((Text.units s.toList).map fun u => .text (String.singleton (Text.ofUnit u)))

inductive Owns : Value → String → Value → Prop
  | field {before after key j} : (∀ p ∈ before, p.1 ≠ key) →
      Owns (.json (.object (before ++ (key, j) :: after))) key (.json j)
  | length {v vs} : Elements v vs → Owns v "length" (.integer vs.length)
  | element {v vs key i w} : Elements v vs → IsIndex key i → vs[i]? = some w → Owns v key w

def itemAt (v : Value) (m : ℤ) : Value :=
  v.get (integer m).toKey

section

variable {key : String} {i : ℕ} {m : ℤ} {v w : Value} {vs : List Value}
  {fields : List (String × Json)}

theorem index?_eq_some : index? key = some i ↔ IsIndex key i := by
  simp only [index?, Option.ite_none_left_eq_some, Option.some.injEq, IsIndex, isWhole_iff,
    and_assoc]

theorem isIndex_iff : IsIndex key i ↔ key.toList = Nat.toDigits 10 i := by
  constructor
  · rintro ⟨hwhole, rfl⟩
    exact (toDigits_digitValue hwhole).symm
  · intro h
    rw [IsIndex, h]
    exact ⟨isWhole_toDigits i, digitValue_toDigits i⟩

-- To refuse the indices from some bound on changes no lookup, where no element has such an index.
theorem filter_index?_bind {bound : ℕ} (h : vs.length ≤ bound) :
    (((index? key).filter fun i => decide (i < bound)).bind fun i => vs[i]?) =
      (index? key).bind fun i => vs[i]? := by
  cases index? key with
  | none => rfl
  | some i =>
      by_cases hi : i < bound
      · simp [Option.filter, hi]
      · have hnone : vs[i]? = none := List.getElem?_eq_none (by omega)
        simp [Option.filter, hi, hnone]

theorem IsIndex.ne_ofList (c : Char) (cs : List Char) (h : IsIndex key i)
    (hc : c.isDigit = false) : key ≠ String.ofList (c :: cs) := by
  rintro rfl
  have hdigit := h.1.1.2 c (by simp)
  rw [hc] at hdigit
  cases hdigit

theorem elementOf_eq_some : elementOf vs key = some w ↔
    key = "length" ∧ w = integer vs.length ∨ ∃ i, IsIndex key i ∧ vs[i]? = some w := by
  unfold elementOf
  split
  · rename_i hkey
    constructor
    · intro h
      cases h
      exact .inl ⟨hkey, rfl⟩
    · rintro (⟨-, rfl⟩ | ⟨i, hi, -⟩)
      · rfl
      · exact absurd hkey (hi.ne_ofList 'l' "ength".toList rfl)
  · rename_i hkey
    simp only [Option.bind_eq_some_iff, index?_eq_some, hkey, false_and, false_or]

theorem owns_object : Owns (.json (.object fields)) key w ↔
    (fields.lookup key).map .json = some w := by
  rw [Option.map_eq_some_iff]
  constructor
  · intro h
    cases h with
    | field hbefore =>
        refine ⟨_, List.lookup_eq_some_iff.2 ⟨_, _, rfl, fun p hp => ?_⟩, rfl⟩
        simpa using (hbefore p hp).symm
    | length hv => cases hv
    | element hv => cases hv
  · rintro ⟨j, hj, rfl⟩
    obtain ⟨before, after, rfl, hbefore⟩ := List.lookup_eq_some_iff.1 hj
    exact .field fun p hp heq => by simpa [heq] using hbefore p hp

theorem Elements.unique {ws : List Value} (h : Elements v vs) (h' : Elements v ws) : ws = vs := by
  cases h with
  | items => cases h'; rfl
  | units => cases h'; rfl

theorem Elements.owns_iff (h : Elements v vs) : Owns v key w ↔ elementOf vs key = some w := by
  rw [elementOf_eq_some]
  constructor
  · intro hw
    cases hw with
    | field => cases h
    | length h' =>
        rw [h.unique h']
        exact .inl ⟨rfl, rfl⟩
    | element h' hi hw =>
        rw [h.unique h'] at hw
        exact .inr ⟨_, hi, hw⟩
  · rintro (⟨rfl, rfl⟩ | ⟨i, hi, hw⟩)
    · exact .length h
    · exact .element h hi hw

theorem Elements.property?_eq (h : Elements v vs) (hkey : key ∉ hiddenKeys) :
    v.property? key = elementOf vs key := by
  cases h <;> exact if_neg hkey

theorem not_owns (hobject : ∀ fields, v ≠ .json (.object fields)) (hv : ∀ vs, ¬ Elements v vs) :
    ¬ Owns v key w := by
  intro h
  cases h with
  | field => exact hobject _ rfl
  | length h => exact hv _ h
  | element h => exact hv _ h

theorem property?_eq_some : v.property? key = some w ↔ key ∉ hiddenKeys ∧ Owns v key w := by
  by_cases hkey : key ∈ hiddenKeys
  · simp [property?, hkey]
  · rw [and_iff_right hkey]
    match v with
    | .json (.object fields) => rw [owns_object, property?, if_neg hkey]
    | .json (.array js) =>
        have helements := Elements.items js
        rw [helements.owns_iff, helements.property?_eq hkey]
    | .json (.text s) =>
        have helements := Elements.units s
        rw [text] at helements
        rw [helements.owns_iff, helements.property?_eq hkey]
    | .undefined | .function _ | .json .null | .json (.boolean _) | .json (.number _) =>
        refine iff_of_false (by simp [property?, hkey]) (not_owns (by simp) ?_)
        rintro vs ⟨⟩

theorem toKey_integer (m : ℤ) : (integer m).toKey = String.ofList (Number.integer m).text := by
  simp only [toKey, integer, toText, Json.toText]

theorem toKey_integer_ne (c : Char) (cs : List Char) (hc : isNumeric c = false) :
    (integer m).toKey ≠ String.ofList (c :: cs) := by
  intro h
  have hnumeric := (Number.integer m).isNumeric_of_mem_text c
  rw [toKey_integer, String.ofList_inj] at h
  rw [h, hc] at hnumeric
  exact absurd (hnumeric List.mem_cons_self) (by decide)

theorem toKey_integer_not_mem_hiddenKeys : (integer m).toKey ∉ hiddenKeys := by
  simp only [hiddenKeys, List.mem_cons, List.not_mem_nil, or_false, not_or]
  exact ⟨toKey_integer_ne '_' "_proto__".toList (by decide),
    toKey_integer_ne 'c' "onstructor".toList (by decide),
    toKey_integer_ne 'p' "rototype".toList (by decide)⟩

theorem index?_toKey_natCast (n : ℕ) : index? (integer n).toKey = some n := by
  have htext : (Number.integer n).text = Nat.toDigits 10 n := by
    rw [Number.text, decide_eq_false (Int.not_lt.2 (Int.natCast_nonneg n)), Int.natAbs_natCast]
    rfl
  rw [index?_eq_some, isIndex_iff, toKey_integer, htext, String.toList_ofList]

theorem index?_toKey_of_neg (hm : m < 0) : index? (integer m).toKey = none := by
  have htext : (Number.integer m).text = '-' :: Nat.toDigits 10 m.natAbs := by
    rw [Number.text, decide_eq_true hm]
    rfl
  refine Option.eq_none_iff_forall_ne_some.2 fun i hi => ?_
  exact (index?_eq_some.1 hi).ne_ofList _ _ rfl ((toKey_integer m).trans (congrArg _ htext))

theorem Elements.itemAt_eq (h : Elements v vs) :
    v.itemAt m = ((index? (integer m).toKey).bind fun i => vs[i]?).getD .undefined := by
  have hlength : (integer m).toKey ≠ "length" :=
    toKey_integer_ne 'l' "ength".toList (by decide)
  rw [itemAt, get, h.property?_eq toKey_integer_not_mem_hiddenKeys, elementOf, if_neg hlength]

theorem Elements.itemAt_of_lt (h : Elements v vs) (hi : i < vs.length) : v.itemAt i = vs[i] := by
  rw [h.itemAt_eq, index?_toKey_natCast, Option.bind_some, List.getElem?_eq_getElem hi]
  rfl

theorem Elements.itemAt_of_not_lt (h : Elements v vs) (hm : m < 0 ∨ vs.length ≤ m) :
    v.itemAt m = .undefined := by
  rw [h.itemAt_eq]
  rcases hm with hneg | hle
  · rw [index?_toKey_of_neg hneg]
    rfl
  · obtain ⟨n, rfl⟩ := Int.eq_ofNat_of_zero_le (Int.natCast_nonneg _ |>.trans hle)
    rw [index?_toKey_natCast, Option.bind_some,
      List.getElem?_eq_none_iff.2 (Int.ofNat_le.1 hle)]
    rfl

theorem Elements.read_eq (h : Elements v vs) (key : String) : v.read key = .ok (v.get key) := by
  cases h <;> rfl

theorem Elements.evaluate_index {σ : Type} {host : Host σ} {scope : Scope} {o : ℕ} {e k : Expr}
    {s t u : σ} (h : Elements v vs) (he : e.evaluate host scope s = (.ok v, t))
    (hk : k.evaluate host scope t = (.ok (integer m), u)) :
    (Expr.index o e k).evaluate host scope s = (.ok (v.itemAt m), u) := by
  rw [Expr.evaluate]
  simp only [Run.bind_apply, he, hk, h.read_eq]
  rfl

theorem join_itemAt {s : String} :
    String.join ((List.range (Text.units s.toList).length).map fun i : ℕ =>
        ((Value.text s).itemAt i).toText) = s ↔
      ∀ c ∈ s.toList, c.toNat < 0x10000 := by
  have hitems : ((List.range (Text.units s.toList).length).map fun i : ℕ =>
      ((Value.text s).itemAt i).toText) =
        (Text.units s.toList).map fun u => String.singleton (Text.ofUnit u) := by
    refine List.ext_getElem (by simp) fun i hi _ => ?_
    simp only [List.length_map, List.length_range] at hi
    simp only [List.getElem_map, List.getElem_range]
    rw [(Elements.units s).itemAt_of_lt (by simpa using hi), List.getElem_map]
    simp only [text, toText, Json.toText]
  have hjoin : (String.join ((Text.units s.toList).map fun u =>
      String.singleton (Text.ofUnit u))).toList = (Text.units s.toList).map Text.ofUnit := by
    rw [String.toList_join, List.flatMap_map, List.map_eq_flatMap]
    simp only [String.toList_singleton]
  rw [hitems, ← String.toList_inj, hjoin, Text.map_ofUnit_units]

end

theorem property_lookup_exact :
    (∀ (v : Value) (key : String) (w : Value), v.property? key = some w ↔
      key ∉ ["__proto__", "constructor", "prototype"] ∧ Owns v key w) ∧
    (∀ (v : Value) (vs : List Value), Elements v vs →
      (∀ (i : ℕ) (h : i < vs.length), v.itemAt i = vs[i]) ∧
      (∀ m : ℤ, m < 0 ∨ vs.length ≤ m → v.itemAt m = .undefined) ∧
      ∀ (σ : Type) (host : Host σ) (scope : Scope) (o : ℕ) (e k : Expr) (m : ℤ) (s t u : σ),
        e.evaluate host scope s = (.ok v, t) → k.evaluate host scope t = (.ok (.integer m), u) →
          (Expr.index o e k).evaluate host scope s = (.ok (v.itemAt m), u)) ∧
    ∀ s : String,
      String.join ((List.range (Text.units s.toList).length).map fun i : ℕ =>
          ((Value.text s).itemAt i).toText) = s ↔
        ∀ c ∈ s.toList, c.toNat < 0x10000 := by
  refine ⟨fun v key w => property?_eq_some, fun v vs h => ⟨?_, ?_, ?_⟩, fun s => join_itemAt⟩
  · exact fun i hi => h.itemAt_of_lt hi
  · exact fun m hm => h.itemAt_of_not_lt hm
  · exact fun σ host scope o e k m s t u he hk => h.evaluate_index he hk

theorem property_lookup_exact_of_emoji :
    let scope : Scope := ⟨⟨[("a", .text "a😀"), ("m", .integer (-1))], []⟩, .undefined, {}⟩
    Elements (.text "a😀") [.text "a", .text "\uFFFD", .text "\uFFFD"] ∧
      (Value.text "a😀").property? "1" = some (.text "\uFFFD") ∧
      (Expr.name 0 "a").evaluate Host.isolated scope () = (.ok (.text "a😀"), ()) ∧
      (Expr.name 2 "m").evaluate Host.isolated scope () = (.ok (.integer (-1)), ()) ∧
      (Expr.index 0 (.name 0 "a") (.name 2 "m")).evaluate Host.isolated scope () =
        (.ok .undefined, ()) := by
  intro scope
  have helements : Elements (.text "a😀") [.text "a", .text "\uFFFD", .text "\uFFFD"] := .units "a😀"
  have hindex : IsIndex "1" 1 := index?_eq_some.1 (by with_unfolding_all rfl)
  have ha : (Expr.name 0 "a").evaluate Host.isolated scope () = (.ok (.text "a😀"), ()) := rfl
  have hm : (Expr.name 2 "m").evaluate Host.isolated scope () = (.ok (.integer (-1)), ()) := rfl
  obtain ⟨hproperty, hitems, -⟩ := property_lookup_exact
  obtain ⟨-, houtside, hevaluate⟩ := hitems _ _ helements
  refine ⟨helements, ?_, ha, hm, ?_⟩
  · exact (hproperty _ _ _).2 ⟨by decide, .element helements hindex rfl⟩
  · rw [hevaluate Unit Host.isolated scope _ _ _ _ () () () ha hm, houtside (-1) (.inl (by decide))]

end Value

end TemplateExpr
