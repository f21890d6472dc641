import Mathlib.Data.List.Forall2
import TemplateExpr.Proofs.Value.Equality
import TemplateExpr.Proofs.Value.Spelled

namespace TemplateExpr

namespace Json

mutual

-- The numbers that the text of data shows, in their order. Those in an object are not shown.
def numbers : Json → List Number
  | .number n => [n]
  | .array items => itemsNumbers items
  | _ => []

def itemsNumbers : List Json → List Number
  | [] => []
  | j :: items => j.numbers ++ itemsNumbers items

end

def itemText : Json → List Char
  | .null => []
  | j => j.toText.toList

def itemsText : List Json → List Char
  | [] => []
  | [j] => j.itemText
  | j :: k :: items => j.itemText ++ ',' :: itemsText (k :: items)

variable {a b x y : Json} {xs ys : List Json}

theorem itemTexts_eq_map (xs : List Json) :
    itemTexts xs = xs.map fun x => String.ofList x.itemText := by
  induction xs with
  | nil => rfl
  | cons x xs ih => cases x <;> simp [itemTexts, itemText, ih]

theorem itemsText_eq (xs : List Json) : itemsText xs = [','].intercalate (xs.map itemText) := by
  induction xs with
  | nil => rfl
  | cons x xs ih =>
      cases xs with
      | nil => simp [itemsText]
      | cons y xs => simp [itemsText, ih]

theorem itemText_array (xs : List Json) : (array xs).itemText = itemsText xs := by
  have hcomma : ",".toList = [','] := rfl
  have htexts : (itemTexts xs).map String.toList = xs.map itemText := by
    simp [itemTexts_eq_map]
  rw [itemText, toText, String.toList_intercalate, hcomma, htexts, itemsText_eq]
  simp

theorem itemText_number (n : Number) : (number n).itemText = n.text :=
  String.toList_ofList

theorem toList_toText (ha : a ≠ .null) : a.toText.toList = a.itemText := by
  cases a with
  | null => exact absurd rfl ha
  | _ => rfl

def SameNumbers (ms ns : List Number) : Prop :=
  List.Forall₂ (fun m n => m.toDouble.same n.toDouble = true) ms ns

theorem sameNumbers_of_strictEq (h : a.strictEq b = true) : SameNumbers a.numbers b.numbers := by
  refine strictEq_induct (motive := fun a b => SameNumbers a.numbers b.numbers)
    .nil (fun _ => .nil) (fun _ _ hmn => .cons hmn .nil) (fun _ => .nil) ?array
    (fun _ _ _ _ => .nil) h
  case array =>
    intro xs ys hitems
    rw [numbers, numbers]
    induction hitems with
    | nil => exact .nil
    | cons hxy _ ih => exact List.rel_append hxy.2 ih

-- Whatever follows the texts of two items, as long as no number goes on with it: they are the same
-- exactly if their numbers spell out the same.
def Aligned (a b : Json) : Prop :=
  ∀ r s, Token.startsWith Numeral.isNumeric r = false →
    Token.startsWith Numeral.isNumeric s = false →
    (a.itemText ++ r = b.itemText ++ s ↔
      a.numbers.map Number.spelled = b.numbers.map Number.spelled ∧ r = s)

theorem aligned_of_eq (htext : a.itemText = b.itemText) (hnumbers : a.numbers = b.numbers) :
    Aligned a b := by
  intro r s _ _
  rw [htext, hnumbers, List.append_cancel_left_eq]
  exact (and_iff_right rfl).symm

theorem aligned_number {m n : Number} (hm : m.Fits) (hn : n.Fits) :
    Aligned (.number m) (.number n) := by
  intro r s hr hs
  rw [itemText_number, itemText_number, numbers, numbers, List.map_singleton, List.map_singleton,
    List.singleton_inj, ← Number.text_eq_iff hm hn]
  constructor
  · intro h
    have hmn := congrArg (List.takeWhile Numeral.isNumeric) h
    rw [Token.takeWhile_append_of_startsWith m.isNumeric_of_mem_text hr,
      Token.takeWhile_append_of_startsWith n.isNumeric_of_mem_text hs] at hmn
    rw [hmn] at h
    exact ⟨hmn, List.append_cancel_left h⟩
  · rintro ⟨hmn, rfl⟩
    rw [hmn]

theorem aligned_array
    (h : List.Forall₂ (fun x y => x.strictEq y = true ∧ Aligned x y) xs ys) :
    Aligned (.array xs) (.array ys) := by
  induction h with
  | nil => exact aligned_of_eq rfl rfl
  | @cons x y xs ys hxy hrest ih =>
      have hlength := (sameNumbers_of_strictEq hxy.1).length_eq
      have hconcat : (array (x :: xs)).numbers.map Number.spelled =
            (array (y :: ys)).numbers.map Number.spelled ↔
          x.numbers.map Number.spelled = y.numbers.map Number.spelled ∧
            (array xs).numbers.map Number.spelled = (array ys).numbers.map Number.spelled := by
        simp only [numbers, itemsNumbers, List.map_append]
        exact List.append_eq_append_iff_of_size_eq_left (by simpa using hlength)
      intro r s hr hs
      have htail := ih r s hr hs
      rw [itemText_array, itemText_array] at htail ⊢
      rw [hconcat, and_assoc]
      cases hrest with
      | nil => simpa [itemsText, numbers, itemsNumbers] using hxy.2 r s hr hs
      | cons _ _ =>
          rw [itemsText, itemsText, List.append_assoc, List.append_assoc, List.cons_append,
            List.cons_append, hxy.2 _ _ rfl rfl, List.cons.injEq, htail]
          simp only [true_and]

theorem aligned_of_strictEq (ha : ∀ n ∈ a.numbers, n.Fits) (hb : ∀ n ∈ b.numbers, n.Fits)
    (h : a.strictEq b = true) : Aligned a b := by
  refine strictEq_induct (motive := fun a b =>
      (∀ n ∈ a.numbers, n.Fits) → (∀ n ∈ b.numbers, n.Fits) → Aligned a b)
    ?null ?boolean ?number ?text ?array ?object h ha hb
  case null => exact fun _ _ => aligned_of_eq rfl rfl
  case boolean => exact fun _ _ _ => aligned_of_eq rfl rfl
  case number =>
    exact fun m n _ hm hn => aligned_number (hm m List.mem_cons_self) (hn n List.mem_cons_self)
  case text => exact fun _ _ _ => aligned_of_eq rfl rfl
  case array =>
    intro xs ys hitems ha hb
    refine aligned_array ?_
    rw [numbers] at ha hb
    induction hitems with
    | nil => exact .nil
    | cons hxy _ ih =>
        obtain ⟨hx, hxs⟩ := List.forall_mem_append.1 ha
        obtain ⟨hy, hys⟩ := List.forall_mem_append.1 hb
        exact .cons ⟨hxy.1, hxy.2 hx hy⟩ (ih hxs hys)
  case object => exact fun _ _ _ _ _ _ => aligned_of_eq rfl rfl

theorem toText_eq_iff (ha : ∀ n ∈ a.numbers, n.Fits) (hb : ∀ n ∈ b.numbers, n.Fits)
    (h : a.strictEq b = true) : a.toText = b.toText ↔
      a.numbers.map Number.spelled = b.numbers.map Number.spelled := by
  by_cases hnull : a = .null
  · subst hnull
    cases b with
    | null => exact iff_of_true rfl rfl
    | _ => cases h
  · have hnull' : b ≠ .null := by
      rintro rfl
      cases a <;> first | exact hnull rfl | cases h
    have haligned := aligned_of_strictEq ha hb h [] [] rfl rfl
    rw [List.append_nil, List.append_nil, and_iff_left rfl] at haligned
    rw [← String.toList_inj, toList_toText hnull, toList_toText hnull', haligned]

end Json

end TemplateExpr
