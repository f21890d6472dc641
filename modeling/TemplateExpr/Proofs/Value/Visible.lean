import TemplateExpr.Expr.Evaluate
import TemplateExpr.Proofs.Value.Relational

namespace TemplateExpr

mutual

def Json.visible : Json → Json
  | .null => .null
  | .boolean b => .boolean b
  | .number n => .number n
  | .text s => .text s
  | .array items => .array (Json.visibleItems items)
  | .object fields => .object (Json.visibleFields fields)

def Json.visibleItems : List Json → List Json
  | [] => []
  | j :: items => j.visible :: Json.visibleItems items

def Json.visibleFields : List (String × Json) → List (String × Json)
  | [] => []
  | (k, j) :: fields =>
      if k ∈ Value.hiddenKeys then Json.visibleFields fields
      else (k, j.visible) :: Json.visibleFields fields

end

namespace Json

theorem visibleItems_eq_map (items : List Json) : visibleItems items = items.map visible := by
  induction items with
  | nil => rfl
  | cons j items ih => rw [visibleItems, ih, List.map_cons]

theorem lookup_visibleFields {key : String} (h : key ∉ Value.hiddenKeys)
    (fields : List (String × Json)) :
    (visibleFields fields).lookup key = (fields.lookup key).map visible := by
  induction fields with
  | nil => rfl
  | cons p fields ih =>
      obtain ⟨k, j⟩ := p
      rw [visibleFields, List.lookup_cons]
      by_cases hk : k ∈ Value.hiddenKeys
      · have hne : (key == k) = false := by
          rw [beq_eq_false_iff_ne]
          rintro rfl
          exact h hk
        rw [if_pos hk, hne]
        exact ih
      · rw [if_neg hk, List.lookup_cons]
        cases key == k
        · exact ih
        · rfl

mutual

theorem toText_visible : ∀ j : Json, j.visible.toText = j.toText
  | .null => rfl
  | .boolean _ => rfl
  | .number _ => rfl
  | .text _ => rfl
  | .array items => by rw [visible, toText, toText, itemTexts_visibleItems items]
  | .object _ => by rw [visible, toText, toText]

theorem itemTexts_visibleItems : ∀ items, itemTexts (visibleItems items) = itemTexts items
  | [] => rfl
  | j :: items => by
      have hj := toText_visible j
      have hitems := itemTexts_visibleItems items
      cases j <;> simp_all [visibleItems, itemTexts, visible]

end

end Json

namespace Value

variable {a b v : Value}

def visible : Value → Value
  | .json j => .json j.visible
  | v => v

def Similar (a b : Value) : Prop :=
  a.visible = b.visible

@[simp] theorem toText_visible (v : Value) : v.visible.toText = v.toText := by
  cases v with
  | json j => exact j.toText_visible
  | _ => rfl

@[simp] theorem toDouble_visible (v : Value) : v.visible.toDouble = v.toDouble := by
  cases v with
  | json j =>
      cases j with
      | array items =>
          have h := (Json.array items).toText_visible
          rw [Json.visible] at h
          rw [visible, Json.visible, toDouble, toDouble, h]
      | _ => rfl
  | _ => rfl

@[simp] theorem isTruthy_visible (v : Value) : v.visible.isTruthy = v.isTruthy := by
  cases v with
  | json j => cases j <;> rfl
  | _ => rfl

@[simp] theorem isText_visible (v : Value) : v.visible.isText = v.isText := by
  cases v with
  | json j => cases j <;> rfl
  | _ => rfl

theorem toJson_visible (v : Value) : v.visible.toJson = v.toJson.visible := by
  cases v <;> rfl

theorem visible_of_isText (h : v.isText) : v.visible = v := by
  cases v with
  | json j =>
      cases j with
      | text s => rfl
      | _ => cases h
  | _ => cases h

@[simp] theorem compare?_visible (a b : Value) : a.visible.compare? b.visible = a.compare? b := by
  by_cases h : a.isText ∧ b.isText
  · rw [visible_of_isText h.1, visible_of_isText h.2]
  · have h' : ¬ (a.visible.isText ∧ b.visible.isText) := by simpa using h
    rw [compare?_of_not_isText h, compare?_of_not_isText h', toDouble_visible, toDouble_visible]

theorem elementOf_map_visible (elements : List Value) (key : String) :
    elementOf (elements.map visible) key = (elementOf elements key).map visible := by
  unfold elementOf
  split
  · rw [List.length_map]
    rfl
  · cases index? key <;> simp

theorem property?_visible (v : Value) (key : String) :
    v.visible.property? key = (v.property? key).map visible := by
  unfold property?
  by_cases h : key ∈ hiddenKeys
  · rw [if_pos h, if_pos h]
    rfl
  · rw [if_neg h, if_neg h]
    cases v with
    | json j =>
        cases j with
        | object fields =>
            simp only [visible, Json.visible, Json.lookup_visibleFields h, Option.map_map]
            rfl
        | array items =>
            simp only [visible, Json.visible, Json.visibleItems_eq_map]
            rw [← elementOf_map_visible]
            simp [Function.comp_def, visible]
        | text s =>
            simp only [visible, Json.visible]
            rw [← elementOf_map_visible]
            simp [Function.comp_def, visible, text, Json.visible]
        | _ => rfl
    | _ => rfl

theorem get_visible (v : Value) (key : String) : v.visible.get key = (v.get key).visible := by
  rw [get, get, property?_visible]
  cases v.property? key <;> rfl

theorem read_visible (v : Value) (key : String) :
    v.visible.read key = (v.read key).map visible := by
  have h := v.get_visible key
  cases v with
  | json j => cases j <;> first | rfl | exact congrArg Except.ok h
  | undefined => rfl
  | function f => exact congrArg Except.ok h

end Value

theorem UnaryOp.apply_visible (op : UnaryOp) (v : Value) : op.apply v.visible = op.apply v := by
  cases op with
  | neg => rw [apply, apply, Value.neg, Value.neg, v.toDouble_visible]
  | not => rw [apply, apply, v.isTruthy_visible]

def BinaryOp.isStrictEquality : BinaryOp → Bool
  | .strictEq => true
  | .strictNe => true
  | _ => false

theorem BinaryOp.apply_visible {op : BinaryOp} (h : op.isStrictEquality = false) (a b : Value) :
    op.apply a.visible b.visible = op.apply a b := by
  cases op with
  | strictEq => cases h
  | strictNe => cases h
  | lt => simp only [apply, Value.lt, Value.compare?_visible]
  | le => simp only [apply, Value.le, Value.compare?_visible]
  | gt => simp only [apply, Value.gt, Value.compare?_visible]
  | ge => simp only [apply, Value.ge, Value.compare?_visible]
  | add => simp [apply, Value.add]
  | sub => simp [apply, Value.sub]
  | mul => simp [apply, Value.mul]
  | div => simp [apply, Value.div]

end TemplateExpr
