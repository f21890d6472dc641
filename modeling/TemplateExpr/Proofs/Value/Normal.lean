import TemplateExpr.Expr.Evaluate
import TemplateExpr.Proofs.Double.Integer

namespace TemplateExpr

def Number.IsNormal : Number → Prop
  | .integer n => n.natAbs < Nat.pow 2 53
  | .double x => ¬ Double.one ∣ x.units ∨ Nat.pow 2 53 * Double.one ≤ x.units

namespace Number

theorem not_isNormal_of_signedUnits {x : Double.Finite} {n : Int}
    (hx : x.signedUnits = n * Double.one) (h : n.natAbs < Nat.pow 2 53) :
    ¬ (double x).IsNormal := by
  have hunits := Double.Finite.units_of_signedUnits hx
  rintro (hdvd | hle)
  · exact hdvd (hunits ▸ Nat.dvd_mul_left _ _)
  · rw [hunits] at hle
    exact absurd (Nat.le_of_mul_le_mul_right hle Double.one_pos) (Nat.not_le.2 h)

theorem isNormal_of_ofDouble? {a : Double} {n : Number} (h : ofDouble? a = some n) :
    n.IsNormal := by
  cases a with
  | nan => cases h
  | infinite s => cases h
  | finite x =>
      simp only [ofDouble?] at h
      split at h
      · rename_i m hm
        cases h
        simpa [IsNormal] using (Option.filter_eq_some_iff.1 hm).2
      · rename_i hnone
        cases h
        by_cases hdvd : Double.one ∣ x.units
        · right
          obtain ⟨k, hk⟩ := hdvd
          have hx : x.signedUnits = Double.sign x.negative * k * Double.one := by
            rw [x.signedUnits_eq, hk, Int.natCast_mul, Int.mul_assoc, Int.mul_comm (k : Int)]
          have hint := Double.IsInt.toInt? ⟨x, rfl, hx⟩
          have hlarge := Option.filter_eq_none_iff.1 hnone _ hint
          have habs : (Double.sign x.negative * k).natAbs = k := by
            cases x.negative <;> simp [Double.sign]
          rw [habs, decide_eq_true_eq, Nat.not_lt] at hlarge
          rw [hk, Nat.mul_comm Double.one]
          exact Nat.mul_le_mul_right _ hlarge
        · exact .inl hdvd

end Number

namespace Json

@[elab_as_elim]
theorem induct {motive : Json → Prop} (null : motive .null) (boolean : ∀ b, motive (.boolean b))
    (number : ∀ n, motive (.number n)) (text : ∀ s, motive (.text s))
    (array : ∀ items, (∀ j ∈ items, motive j) → motive (.array items))
    (object : ∀ fields, (∀ p ∈ fields, motive p.2) → motive (.object fields)) (j : Json) :
    motive j :=
  @Json.rec motive (fun items => ∀ j ∈ items, motive j) (fun fields => ∀ p ∈ fields, motive p.2)
    (fun p => motive p.2) null boolean number text array object (by simp)
    (fun _ _ h hs => List.forall_mem_cons.2 ⟨h, hs⟩) (by simp)
    (fun _ _ h hs => List.forall_mem_cons.2 ⟨h, hs⟩) (fun _ _ h => h) j

mutual

def parts : Json → List Json
  | .null => [.null]
  | .boolean b => [.boolean b]
  | .number n => [.number n]
  | .text s => [.text s]
  | .array items => .array items :: itemsParts items
  | .object fields => .object fields :: fieldsParts fields

def itemsParts : List Json → List Json
  | [] => []
  | j :: items => j.parts ++ itemsParts items

def fieldsParts : List (String × Json) → List Json
  | [] => []
  | (_, j) :: fields => j.parts ++ fieldsParts fields

end

theorem forall_mem_itemsParts {P : Json → Prop} (items : List Json) :
    (∀ k ∈ itemsParts items, P k) ↔ ∀ j ∈ items, ∀ k ∈ j.parts, P k := by
  induction items with
  | nil => simp [itemsParts]
  | cons j items ih => rw [itemsParts, List.forall_mem_append, List.forall_mem_cons, ih]

theorem forall_mem_fieldsParts {P : Json → Prop} (fields : List (String × Json)) :
    (∀ k ∈ fieldsParts fields, P k) ↔ ∀ p ∈ fields, ∀ k ∈ p.2.parts, P k := by
  induction fields with
  | nil => simp [fieldsParts]
  | cons p fields ih => rw [fieldsParts, List.forall_mem_append, List.forall_mem_cons, ih]

def EveryNumber (P : Number → Prop) (j : Json) : Prop :=
  ∀ n, .number n ∈ j.parts → P n

def EveryObject (P : List (String × Json) → Prop) (j : Json) : Prop :=
  ∀ fields, .object fields ∈ j.parts → P fields

section

variable {P : Number → Prop} {Q : List (String × Json) → Prop} {j : Json} {items : List Json}
  {fields : List (String × Json)}

theorem everyNumber_iff :
    j.EveryNumber P ↔ ∀ k ∈ j.parts, ∀ n, k = .number n → P n :=
  ⟨fun h _ hk n hn => h n (hn ▸ hk), fun h n hn => h _ hn n rfl⟩

theorem everyNumber_array : (array items).EveryNumber P ↔ ∀ j ∈ items, j.EveryNumber P := by
  simp only [everyNumber_iff, parts, List.forall_mem_cons, reduceCtorEq, false_implies,
    implies_true, true_and, forall_mem_itemsParts]

theorem everyNumber_object :
    (object fields).EveryNumber P ↔ ∀ p ∈ fields, p.2.EveryNumber P := by
  simp only [everyNumber_iff, parts, List.forall_mem_cons, reduceCtorEq, false_implies,
    implies_true, true_and, forall_mem_fieldsParts]

theorem everyObject_iff :
    j.EveryObject Q ↔ ∀ k ∈ j.parts, ∀ fields, k = .object fields → Q fields :=
  ⟨fun h _ hk fields he => h fields (he ▸ hk), fun h fields he => h _ he fields rfl⟩

theorem everyObject_array : (array items).EveryObject Q ↔ ∀ j ∈ items, j.EveryObject Q := by
  simp only [everyObject_iff, parts, List.forall_mem_cons, reduceCtorEq, false_implies,
    implies_true, true_and, forall_mem_itemsParts]

theorem everyObject_object :
    (object fields).EveryObject Q ↔ Q fields ∧ ∀ p ∈ fields, p.2.EveryObject Q := by
  simp only [everyObject_iff, parts, List.forall_mem_cons, object.injEq, forall_eq',
    forall_mem_fieldsParts]

end

def Normal (j : Json) : Prop :=
  ∀ n, .number n ∈ j.parts → n.IsNormal

theorem normal_null : Normal .null := by simp [Normal, parts]

theorem normal_boolean (b : Bool) : (boolean b).Normal := by simp [Normal, parts]

theorem normal_text (s : String) : (text s).Normal := by simp [Normal, parts]

@[simp] theorem normal_number {n : Number} : (number n).Normal ↔ n.IsNormal := by
  simp [Normal, parts]

theorem normal_array {items : List Json} : (array items).Normal ↔ ∀ j ∈ items, j.Normal :=
  everyNumber_array

theorem normal_object {fields : List (String × Json)} :
    (object fields).Normal ↔ ∀ p ∈ fields, p.2.Normal :=
  everyNumber_object

end Json

namespace Value

def Normal : Value → Prop
  | .json j => j.Normal
  | _ => True

-- An array or a text that is not too long for its length to be an integer in normal form.
def Short : Value → Prop
  | .json (.array items) => items.length < Nat.pow 2 53
  | .json (.text s) => (Text.units s.toList).length < Nat.pow 2 53
  | _ => True

variable {v : Value}

theorem normal_ofDouble (x : Double) : (ofDouble x).Normal := by
  unfold ofDouble
  split
  · rename_i n hn
    exact Json.normal_number.2 (Number.isNormal_of_ofDouble? hn)
  · exact Json.normal_null

theorem normal_integer {n : Int} (h : n.natAbs < Nat.pow 2 53) : (integer n).Normal :=
  Json.normal_number.2 h

theorem Normal.toJson (h : v.Normal) : v.toJson.Normal := by
  cases v with
  | json j => exact h
  | undefined => exact Json.normal_null
  | function f => exact Json.normal_null

theorem eq_or_mem_of_elementOf {elements : List Value} {key : String}
    (hv : elementOf elements key = some v) : v = integer elements.length ∨ v ∈ elements := by
  unfold elementOf at hv
  split at hv
  · cases hv
    exact .inl rfl
  · obtain ⟨i, -, hi⟩ := Option.bind_eq_some_iff.1 hv
    exact .inr (List.mem_of_getElem? hi)

theorem normal_elementOf {elements : List Value} {key : String}
    (hlength : elements.length < Nat.pow 2 53) (h : ∀ e ∈ elements, e.Normal)
    (hv : elementOf elements key = some v) : v.Normal := by
  rcases eq_or_mem_of_elementOf hv with rfl | hmem
  · exact normal_integer hlength
  · exact h v hmem

theorem Normal.property? (h : v.Normal) (hshort : v.Short) {key : String} {w : Value}
    (hw : v.property? key = some w) : w.Normal := by
  unfold Value.property? at hw
  split at hw
  · cases hw
  · split at hw
    · rename_i fields
      obtain ⟨j, hj, rfl⟩ := Option.map_eq_some_iff.1 hw
      obtain ⟨before, after, rfl, -⟩ := List.lookup_eq_some_iff.1 hj
      exact Json.normal_object.1 h (key, j) (by simp)
    · rename_i items
      refine normal_elementOf (by simpa [Short] using hshort) ?_ hw
      exact List.forall_mem_map.2 (Json.normal_array.1 h)
    · rename_i s
      refine normal_elementOf (by simpa [Short] using hshort) ?_ hw
      exact List.forall_mem_map.2 fun u _ => Json.normal_text _
    · cases hw

theorem Normal.get (h : v.Normal) (hshort : v.Short) (key : String) : (v.get key).Normal := by
  unfold Value.get
  cases hp : v.property? key with
  | none => trivial
  | some w => exact h.property? hshort hp

theorem Normal.read (h : v.Normal) (hshort : v.Short) {key : String} {w : Value}
    (hw : v.read key = .ok w) : w.Normal := by
  unfold Value.read at hw
  split at hw
  · cases hw
  · cases hw
  · cases hw
    exact h.get hshort key

end Value

theorem Value.ofDouble_eq_null {x : Double} (h : x.isFinite = false) : ofDouble x = null := by
  cases x with
  | finite x => cases h
  | _ => rfl

theorem Double.isFinite_div_of_isZero {a b : Double} (h : b.isZero = true) :
    (a.div b).isFinite = false := by
  cases b with
  | finite y =>
      have hy : y.units = 0 := by simpa [isZero] using h
      cases a with
      | finite x =>
          simp only [div, hy, if_true]
          split <;> rfl
      | _ => rfl
  | _ => cases h

def BinaryOp.onDoubles? : BinaryOp → Option (Double → Double → Double)
  | .add => some Double.add
  | .sub => some Double.sub
  | .mul => some Double.mul
  | .div => some Double.div
  | _ => none

namespace BinaryOp

variable {op : BinaryOp} {f : Double → Double → Double} {a b : Value}

theorem apply_of_onDoubles? (hf : op.onDoubles? = some f)
    (htext : op = .add → a.isText = false ∧ b.isText = false) :
    op.apply a b = .ofDouble (f a.toDouble b.toDouble) := by
  cases op with
  | add =>
      cases hf
      obtain ⟨ha, hb⟩ := htext rfl
      simp [apply, Value.add, ha, hb]
  | sub | mul | div => cases hf; rfl
  | _ => cases hf

theorem onDoubles?_nan (hf : op.onDoubles? = some f) (x : Double) :
    f .nan x = .nan ∧ f x .nan = .nan := by
  cases op <;> cases hf <;> cases x <;> exact ⟨rfl, rfl⟩

theorem apply_eq_null (hf : op.onDoubles? = some f)
    (htext : op = .add → a.isText = false ∧ b.isText = false)
    (h : a.toDouble = .nan ∨ b.toDouble = .nan ∨ op = .div ∧ b.toDouble.isZero = true) :
    op.apply a b = .null := by
  rw [apply_of_onDoubles? hf htext]
  refine Value.ofDouble_eq_null ?_
  rcases h with ha | hb | ⟨rfl, hzero⟩
  · rw [ha, (onDoubles?_nan hf _).1]
    rfl
  · rw [hb, (onDoubles?_nan hf _).2]
    rfl
  · cases hf
    exact Double.isFinite_div_of_isZero hzero

end BinaryOp

theorem UnaryOp.apply_neg_eq_null {v : Value} (h : v.toDouble = .nan) :
    UnaryOp.neg.apply v = .null := by
  rw [apply, Value.neg, h]
  rfl

theorem UnaryOp.normal_apply (op : UnaryOp) (v : Value) : (op.apply v).Normal := by
  cases op with
  | neg => exact Value.normal_ofDouble _
  | not => exact Json.normal_boolean _

theorem BinaryOp.normal_apply (op : BinaryOp) (a b : Value) : (op.apply a b).Normal := by
  cases op with
  | add =>
      change (a.add b).Normal
      rw [Value.add]
      split
      · exact Json.normal_text _
      · exact Value.normal_ofDouble _
  | sub => exact Value.normal_ofDouble _
  | mul => exact Value.normal_ofDouble _
  | div => exact Value.normal_ofDouble _
  | _ => exact Json.normal_boolean _

theorem Literal.normal_ofDouble (x : Double) : (ofDouble x).toValue.Normal := by
  rw [toValue_ofDouble]
  exact Value.normal_ofDouble x

end TemplateExpr
