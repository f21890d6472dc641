import TemplateExpr.Proofs.Value.Equivalence
import TemplateExpr.Proofs.Value.Joined

namespace TemplateExpr

def Double.Alike (a b : Double) : Prop :=
  a.same b = true ∨ a = .nan ∧ b = .nan

theorem Double.Alike.refl (a : Double) : a.Alike a := by
  by_cases ha : a = .nan
  · exact .inr ⟨ha, ha⟩
  · exact .inl (same_self ha)

theorem Double.isZero_eq_of_same {a b : Double} (h : a.same b = true) : a.isZero = b.isZero := by
  cases a with
  | nan => cases h
  | infinite s =>
      cases b with
      | nan => cases h
      | infinite t => rfl
      | finite y => cases s <;> cases h
  | finite x =>
      cases b with
      | nan => cases h
      | infinite t => cases t <;> cases h
      | finite y =>
          rw [isZero, isZero, ← x.natAbs_signedUnits, ← y.natAbs_signedUnits, same_finite.1 h]

namespace Text

open Numeral

variable {negative : Bool} {s w cs : List Char}

theorem comma_not_mem (hs : IsSign negative s) (hw : IsInfinityName w) : ',' ∉ s ++ w := by
  intro hmem
  rcases List.mem_append.1 hmem with hmem | hmem
  · cases hs <;> simp at hmem
  · have hlower : ',' ∈ w.map Char.toLower := List.mem_map.2 ⟨',', hmem, rfl⟩
    rcases hw with hw | hw
    · rw [hw] at hlower
      exact absurd hlower (by decide)
    · rw [hw] at hlower
      exact absurd hlower (by decide)

theorem comma_mem_trim (h : ',' ∈ cs) : ',' ∈ trim cs := by
  obtain ⟨as, bs, has, hbs, hcs⟩ := blanks_append_trim_append_blanks cs
  have hcomma : ¬ isBlank ',' = true := by decide
  rw [hcs, List.mem_append, List.mem_append] at h
  rcases h with (h | h) | h
  · exact absurd (has _ h) hcomma
  · exact h
  · exact absurd (hbs _ h) hcomma

theorem toDouble_of_comma (h : ',' ∈ cs) : toDouble (String.ofList cs) = .nan := by
  have hcomma : ',' ∈ trim (String.ofList cs).toList := by
    rw [String.toList_ofList]
    exact comma_mem_trim h
  have hplain (negative : Bool) : ¬ SignedInfinity negative (trim (String.ofList cs).toList) := by
    rintro ⟨s, w, heq, -, hs, hname, -⟩
    exact comma_not_mem hs hname (heq ▸ hcomma)
  refine (denotes_toDouble hplain).unique (.other (List.ne_nil_of_mem hcomma) ?_ ?_)
  · intro negative s hs heq
    exact comma_not_mem hs isInfinityName_proper (heq ▸ hcomma)
  · intro n hwritten
    exact absurd (List.all_eq_true.1 hwritten.all_isNumeric _ hcomma) (by decide)

end Text

namespace Json

variable {a b : Json} {xs ys : List Json}

theorem comma_mem_itemsText (x y : Json) (xs : List Json) : ',' ∈ itemsText (x :: y :: xs) := by
  rw [itemsText]
  exact List.mem_append_right _ List.mem_cons_self

theorem alike_of_strictEq (h : a.strictEq b = true) :
    (Text.toDouble (.ofList a.itemText)).Alike (Text.toDouble (.ofList b.itemText)) := by
  refine strictEq_induct (motive := fun a b =>
      (Text.toDouble (.ofList a.itemText)).Alike (Text.toDouble (.ofList b.itemText)))
    (.refl _) (fun _ => .refl _) ?number (fun _ => .refl _) ?array (fun _ _ _ _ => .refl _) h
  case number =>
    intro m n hmn
    rw [itemText_number, itemText_number]
    exact .inl (Double.same_trans m.same_toDouble_text
      (Double.same_trans hmn (Double.same_comm n.same_toDouble_text)))
  case array =>
    intro xs ys hitems
    rw [itemText_array, itemText_array]
    cases hitems with
    | nil => exact .refl _
    | cons hxy hrest =>
        cases hrest with
        | nil => exact hxy.2
        | cons _ _ =>
            exact .inr ⟨Text.toDouble_of_comma (comma_mem_itemsText _ _ _),
              Text.toDouble_of_comma (comma_mem_itemsText _ _ _)⟩

theorem spelled_eq_of_small {ms ns : List Number} (h : SameNumbers ms ns)
    (hm : ∀ m ∈ ms, m.Small) (hn : ∀ n ∈ ns, n.Small) :
    ms.map Number.spelled = ns.map Number.spelled := by
  induction h with
  | nil => rfl
  | cons hmn _ ih =>
      obtain ⟨hm, hms⟩ := List.forall_mem_cons.1 hm
      obtain ⟨hn, hns⟩ := List.forall_mem_cons.1 hn
      rw [List.map_cons, List.map_cons, Number.spelled_eq_of_small hm hn hmn, ih hms hns]

end Json

namespace Value

variable {a b : Value}

def numbers : Value → List Number
  | .json j => j.numbers
  | _ => []

def spelled (v : Value) : List ℚ :=
  v.numbers.map Number.spelled

theorem isTruthy_number {m n : Number} (h : m.toDouble.same n.toDouble = true) :
    (json (.number m)).isTruthy = (json (.number n)).isTruthy := by
  rw [isTruthy, isTruthy, Double.isZero_eq_of_same h]
  obtain ⟨hm, hn, -⟩ := Double.same_eq_true.1 h
  cases hx : m.toDouble <;> cases hy : n.toDouble <;> simp_all [Double.isNaN]

theorem isTruthy_eq_of_strictEq (h : a.strictEq b = true) : a.isTruthy = b.isTruthy := by
  rcases eq_or_json_of_strictEq h with rfl | ⟨j, k, rfl, rfl, hjk⟩
  · rfl
  · exact Json.strictEq_induct (motive := fun j k => (json j).isTruthy = (json k).isTruthy)
      rfl (fun _ => rfl) (fun _ _ => isTruthy_number) (fun _ => rfl) (fun _ _ _ => rfl)
      (fun _ _ _ _ => rfl) hjk

theorem toDouble_array (xs : List Json) :
    (json (.array xs)).toDouble = Text.toDouble (.ofList (Json.array xs).itemText) := by
  rw [toDouble, ← Json.toList_toText (by simp), String.ofList_toList]

theorem toDouble_alike_of_strictEq (h : a.strictEq b = true) : a.toDouble.Alike b.toDouble := by
  rcases eq_or_json_of_strictEq h with rfl | ⟨j, k, rfl, rfl, hjk⟩
  · exact .refl _
  · refine Json.strictEq_induct (motive := fun j k => (json j).toDouble.Alike (json k).toDouble)
      (.refl _) (fun _ => .refl _) (fun _ _ => .inl) (fun _ => .refl _) ?array
      (fun _ _ _ _ => .refl _) hjk
    case array =>
      intro xs ys hitems
      rw [toDouble_array, toDouble_array]
      refine Json.alike_of_strictEq ?_
      rw [Json.strictEq, Json.strictEqItems_eq_true]
      exact hitems.imp fun _ _ hxy => hxy.1

theorem toText_eq_iff (ha : ∀ n ∈ a.numbers, n.Fits) (hb : ∀ n ∈ b.numbers, n.Fits)
    (h : a.strictEq b = true) : a.toText = b.toText ↔ a.spelled = b.spelled := by
  rcases eq_or_json_of_strictEq h with rfl | ⟨j, k, rfl, rfl, hjk⟩
  · exact iff_of_true rfl rfl
  · exact Json.toText_eq_iff ha hb hjk

theorem spelled_eq_of_small (ha : ∀ n ∈ a.numbers, n.Small) (hb : ∀ n ∈ b.numbers, n.Small)
    (h : a.strictEq b = true) : a.spelled = b.spelled := by
  rcases eq_or_json_of_strictEq h with rfl | ⟨j, k, rfl, rfl, hjk⟩
  · rfl
  · exact Json.spelled_eq_of_small (Json.sameNumbers_of_strictEq hjk) ha hb

theorem strictEq_interchange (h : a.strictEq b = true) :
    a.isTruthy = b.isTruthy ∧ a.toDouble.Alike b.toDouble ∧
      ((∀ n ∈ a.numbers, n.Fits) → (∀ n ∈ b.numbers, n.Fits) →
        (a.toText = b.toText ↔ a.spelled = b.spelled) ∧
        (a.toKey = b.toKey ↔ a.spelled = b.spelled)) ∧
      ((∀ n ∈ a.numbers, n.Small) → (∀ n ∈ b.numbers, n.Small) →
        a.toText = b.toText ∧ a.toKey = b.toKey) := by
  refine ⟨isTruthy_eq_of_strictEq h, toDouble_alike_of_strictEq h, fun ha hb => ?_,
    fun ha hb => ?_⟩
  · exact ⟨toText_eq_iff ha hb h, toText_eq_iff ha hb h⟩
  · have hfits := toText_eq_iff (fun n hn => (ha n hn).fits) (fun n hn => (hb n hn).fits) h
    have htext := hfits.2 (spelled_eq_of_small ha hb h)
    exact ⟨htext, htext⟩

theorem strictEq_interchange_of_mixed :
    (json (.array [.number (.integer 1), .text "1,2"])).strictEq
      (json (.array [.number (.double (.ofNat false (k := 1) (by decide))), .text "1,2"])) = true ∧
    (json (.array [.number (.integer 1), .text "1,2"])).toText =
      (json (.array [.number (.double (.ofNat false (k := 1) (by decide))), .text "1,2"])).toText ∧
    (integer (2 ^ 53)).strictEq (integer (2 ^ 53 + 1)) = true ∧
    ((integer (2 ^ 53)).toText = (integer (2 ^ 53 + 1)).toText ↔
      (integer (2 ^ 53)).spelled = (integer (2 ^ 53 + 1)).spelled) := by
  let one : Number := .double (.ofNat false (k := 1) (by decide))
  have hmixed : (json (.array [.number (.integer 1), .text "1,2"])).strictEq
      (json (.array [.number one, .text "1,2"])) = true := by
    decide +kernel
  have hlarge : (integer (2 ^ 53)).strictEq (integer (2 ^ 53 + 1)) = true := by decide +kernel
  obtain ⟨-, -, -, hsmall⟩ := strictEq_interchange hmixed
  obtain ⟨-, -, hfits, -⟩ := strictEq_interchange hlarge
  refine ⟨hmixed, (hsmall ?_ ?_).1, hlarge, (hfits ?_ ?_).1⟩
  · simp [numbers, Json.numbers, Json.itemsNumbers, Number.Small]
  · simp [numbers, Json.numbers, Json.itemsNumbers, Number.Small, one]
  · simp [numbers, integer, Json.numbers, Number.Fits]
  · simp [numbers, integer, Json.numbers, Number.Fits]

theorem toText_ne_of_strictEq :
    (integer (2 ^ 53)).strictEq (integer (2 ^ 53 + 1)) = true ∧
      (integer (2 ^ 53)).toText ≠ (integer (2 ^ 53 + 1)).toText := by
  decide +kernel

end Value

end TemplateExpr
