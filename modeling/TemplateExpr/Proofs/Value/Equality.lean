import Mathlib.Data.List.Forall2
import Mathlib.Data.List.Perm.Subperm
import TemplateExpr.Json.Document
import TemplateExpr.Proofs.Double.Order
import TemplateExpr.Proofs.Value.Normal

namespace TemplateExpr

namespace Number

def signedUnits : Number → Int
  | .integer n => n * Double.one
  | .double x => x.signedUnits

theorem IsNormal.toDouble_eq {n : Number} (h : n.IsNormal) :
    ∃ x, n.toDouble = .finite x ∧ x.signedUnits = n.signedUnits := by
  cases n with
  | integer n => exact Double.isInt_ofInt h
  | double x => exact ⟨x, rfl, rfl⟩

theorem IsNormal.eq_of_signedUnits {m n : Number} (hm : m.IsNormal) (hn : n.IsNormal)
    (h : m.signedUnits = n.signedUnits) : m = n := by
  cases m with
  | integer m =>
      cases n with
      | integer n => rw [Int.eq_of_mul_eq_mul_right Double.one_ne_zero h]
      | double y => exact absurd hn (not_isNormal_of_signedUnits h.symm hm)
  | double x =>
      cases n with
      | integer n => exact absurd hm (not_isNormal_of_signedUnits h hn)
      | double y =>
          have hne : x.signedUnits ≠ 0 := fun hzero =>
            not_isNormal_of_signedUnits (n := 0) (by rw [hzero, Int.zero_mul]) (by decide) hm
          change x.signedUnits = y.signedUnits at h
          have hunits : x.units = y.units := by
            rw [← x.natAbs_signedUnits, h, y.natAbs_signedUnits]
          have hsign : x.negative = y.negative := by
            unfold Double.Finite.signedUnits at h hne
            cases hx : x.negative <;> cases hy : y.negative <;> simp [hx, hy] at h hne ⊢ <;> omega
          rw [Double.Finite.ext hsign hunits]

end Number

theorem Number.IsNormal.same_toDouble {m n : Number} (hm : m.IsNormal) (hn : n.IsNormal) :
    m.toDouble.same n.toDouble = true ↔ m = n := by
  obtain ⟨x, hmx, hx⟩ := hm.toDouble_eq
  obtain ⟨y, hny, hy⟩ := hn.toDouble_eq
  rw [hmx, hny, Double.same_finite, hx, hy]
  exact ⟨hm.eq_of_signedUnits hn, fun h => h ▸ rfl⟩

theorem Number.IsNormal.same {m n : Number} (hm : m.IsNormal) (hn : n.IsNormal) :
    m.same n = true ↔ m = n := by
  cases m with
  | integer m => cases n <;> simp [Number.same]
  | double x =>
      cases n with
      | integer n => simp [Number.same]
      | double y => exact hm.same_toDouble hn

namespace Table

variable {α : Type} {s t : Table α}

theorem Sorted.nodup_keys (h : Sorted t) : (t.map Prod.fst).Nodup := by
  refine List.pairwise_map.2 (List.Pairwise.imp ?_ h)
  intro p q hlt heq
  rw [heq] at hlt
  exact String.lt_irrefl q.1 hlt

theorem lookup_eq_some_iff (h : (t.map Prod.fst).Nodup) {k : String} {v : α} :
    t.lookup k = some v ↔ (k, v) ∈ t := by
  induction t with
  | nil => simp
  | cons p t ih =>
      obtain ⟨l, w⟩ := p
      rw [List.map_cons, List.nodup_cons] at h
      rw [List.lookup_cons, List.mem_cons, Prod.mk.injEq, ← ih h.2]
      by_cases hk : k = l
      · subst hk
        have hnone : t.lookup k ≠ some v := fun hv =>
          h.1 (List.mem_map.2 ⟨(k, v), (ih h.2).1 hv, rfl⟩)
        simp [hnone, eq_comm]
      · simp [hk, beq_eq_false_iff_ne.2 hk]

theorem Sorted.eq_of_subset (hs : Sorted s) (ht : Sorted t) (hlength : s.length = t.length)
    (h : s ⊆ t) : s = t := by
  have hnodup : s.Nodup := by
    refine List.Pairwise.imp ?_ hs
    rintro p q hlt rfl
    exact String.lt_irrefl p.1 hlt
  have hperm := (List.subperm_of_subset hnodup h).perm_of_length_le (Nat.le_of_eq hlength.symm)
  exact hperm.eq_of_pairwise (fun p q _ _ hpq hqp => absurd hpq (String.lt_asymm hqp)) hs ht

end Table

namespace Json

def Ordered (j : Json) : Prop :=
  ∀ fields, .object fields ∈ j.parts → Table.Sorted fields

theorem ordered_array {items : List Json} : (array items).Ordered ↔ ∀ j ∈ items, j.Ordered :=
  everyObject_array

theorem ordered_object {fields : List (String × Json)} :
    (object fields).Ordered ↔ Table.Sorted fields ∧ ∀ p ∈ fields, p.2.Ordered :=
  everyObject_object

theorem sameItems_iff {xs ys : List Json}
    (h : ∀ x ∈ xs, ∀ y ∈ ys, x.same y = true ↔ x = y) : sameItems xs ys = true ↔ xs = ys := by
  induction xs generalizing ys with
  | nil => cases ys <;> simp [sameItems]
  | cons x xs ih =>
      cases ys with
      | nil => simp [sameItems]
      | cons y ys =>
          have hxy := h x List.mem_cons_self y List.mem_cons_self
          have hrest := ih fun x hx y hy => h x (.tail _ hx) y (.tail _ hy)
          rw [sameItems, Bool.and_eq_true, hxy, hrest, List.cons.injEq]

theorem sameFields_iff {xs ys : List (String × Json)}
    (h : ∀ p ∈ xs, ∀ q ∈ ys, p.2.same q.2 = true ↔ p.2 = q.2) :
    sameFields xs ys = true ↔ xs = ys := by
  induction xs generalizing ys with
  | nil => cases ys <;> simp [sameFields]
  | cons p xs ih =>
      cases ys with
      | nil => simp [sameFields]
      | cons q ys =>
          have hpq := h p List.mem_cons_self q List.mem_cons_self
          have hrest := ih fun p hp q hq => h p (.tail _ hp) q (.tail _ hq)
          rw [sameFields, Bool.and_eq_true, Bool.and_eq_true, beq_iff_eq, hpq, hrest,
            List.cons.injEq, Prod.ext_iff]

theorem strictEqItems_iff {xs ys : List Json}
    (h : ∀ x ∈ xs, ∀ y ∈ ys, x.strictEq y = true ↔ x = y) :
    strictEqItems xs ys = true ↔ xs = ys := by
  induction xs generalizing ys with
  | nil => cases ys <;> simp [strictEqItems]
  | cons x xs ih =>
      cases ys with
      | nil => simp [strictEqItems]
      | cons y ys =>
          have hxy := h x List.mem_cons_self y List.mem_cons_self
          have hrest := ih fun x hx y hy => h x (.tail _ hx) y (.tail _ hy)
          rw [strictEqItems, Bool.and_eq_true, hxy, hrest, List.cons.injEq]

theorem strictEqFields_eq_true {xs ys : List (String × Json)} :
    strictEqFields xs ys = true ↔
      ∀ p ∈ xs, ∃ j, ys.lookup p.1 = some j ∧ p.2.strictEq j = true := by
  induction xs with
  | nil => simp [strictEqFields]
  | cons p xs ih =>
      rw [strictEqFields, Bool.and_eq_true, ih, List.forall_mem_cons]
      cases ys.lookup p.1 <;> simp

theorem strictEqItems_eq_true {xs ys : List Json} :
    strictEqItems xs ys = true ↔ List.Forall₂ (fun x y => x.strictEq y = true) xs ys := by
  induction xs generalizing ys with
  | nil => cases ys <;> simp [strictEqItems]
  | cons x xs ih => cases ys <;> simp [strictEqItems, ih]

@[elab_as_elim]
theorem strictEq_induct {a b : Json} {motive : Json → Json → Prop} (null : motive .null .null)
    (boolean : ∀ x, motive (.boolean x) (.boolean x))
    (number : ∀ m n, m.toDouble.same n.toDouble = true → motive (.number m) (.number n))
    (text : ∀ s, motive (.text s) (.text s))
    (array : ∀ xs ys, List.Forall₂ (fun x y => x.strictEq y = true ∧ motive x y) xs ys →
      motive (.array xs) (.array ys))
    (object : ∀ fs gs, fs.length = gs.length →
      (∀ p ∈ fs, ∃ j, gs.lookup p.1 = some j ∧ p.2.strictEq j = true ∧ motive p.2 j) →
      motive (.object fs) (.object gs))
    (h : a.strictEq b = true) : motive a b := by
  induction a using induct generalizing b with
  | null =>
      cases b with
      | null => exact null
      | _ => cases h
  | boolean x =>
      cases b with
      | boolean y =>
          rw [strictEq, beq_iff_eq] at h
          exact h ▸ boolean x
      | _ => cases h
  | number m =>
      cases b with
      | number n => exact number m n h
      | _ => cases h
  | text s =>
      cases b with
      | text t =>
          rw [strictEq, beq_iff_eq] at h
          exact h ▸ text s
      | _ => cases h
  | array xs ih =>
      cases b with
      | array ys =>
          rw [strictEq, strictEqItems_eq_true] at h
          have hmotive : ∀ x ∈ xs, ∀ y, x.strictEq y = true → motive x y := fun x hx y => ih x hx
          have hitems := (List.forall₂_and_left xs ys).2 ⟨hmotive, h⟩
          exact array xs ys (hitems.imp fun x y hxy => ⟨hxy.2, hxy.1 y hxy.2⟩)
      | _ => cases h
  | object fs ih =>
      cases b with
      | object gs =>
          rw [strictEq, Bool.and_eq_true, beq_iff_eq, strictEqFields_eq_true] at h
          refine object fs gs h.1 fun p hp => ?_
          obtain ⟨j, hj, heq⟩ := h.2 p hp
          exact ⟨j, hj, heq, ih p hp heq⟩
      | _ => cases h

theorem strictEqFields_iff {xs ys : List (String × Json)} (hxs : Table.Sorted xs)
    (hys : Table.Sorted ys) (h : ∀ p ∈ xs, ∀ q ∈ ys, p.2.strictEq q.2 = true ↔ p.2 = q.2) :
    (xs.length == ys.length && strictEqFields xs ys) = true ↔ xs = ys := by
  rw [Bool.and_eq_true, beq_iff_eq, strictEqFields_eq_true]
  constructor
  · rintro ⟨hlength, hfields⟩
    refine hxs.eq_of_subset hys hlength fun p hp => ?_
    obtain ⟨j, hj, heq⟩ := hfields p hp
    have hmem := (Table.lookup_eq_some_iff hys.nodup_keys).1 hj
    have hp2 : p.2 = j := (h p hp (p.1, j) hmem).1 heq
    rwa [← hp2] at hmem
  · rintro rfl
    refine ⟨rfl, fun p hp => ⟨p.2, (Table.lookup_eq_some_iff hxs.nodup_keys).2 hp, (h p hp p hp).2 rfl⟩⟩

theorem Normal.same_iff {a b : Json} (ha : a.Normal) (hb : b.Normal) :
    a.same b = true ↔ a = b := by
  induction a using induct generalizing b with
  | null => cases b <;> simp [same]
  | boolean x => cases b <;> simp [same]
  | number m =>
      cases b with
      | number n => rw [same, (normal_number.1 ha).same (normal_number.1 hb), number.injEq]
      | _ => simp [same]
  | text s => cases b <;> simp [same]
  | array xs ih =>
      cases b with
      | array ys =>
          have ha := normal_array.1 ha
          have hb := normal_array.1 hb
          rw [same, sameItems_iff fun x hx y hy => ih x hx (ha x hx) (hb y hy), array.injEq]
      | _ => simp [same]
  | object xs ih =>
      cases b with
      | object ys =>
          have ha := normal_object.1 ha
          have hb := normal_object.1 hb
          rw [same, sameFields_iff fun p hp q hq => ih p hp (ha p hp) (hb q hq), object.injEq]
      | _ => simp [same]

theorem Normal.strictEq_iff {a b : Json} (ha : a.Normal) (hb : b.Normal) (hao : a.Ordered)
    (hbo : b.Ordered) : a.strictEq b = true ↔ a = b := by
  induction a using induct generalizing b with
  | null => cases b <;> simp [strictEq]
  | boolean x => cases b <;> simp [strictEq]
  | number m =>
      cases b with
      | number n =>
          rw [strictEq, (normal_number.1 ha).same_toDouble (normal_number.1 hb), number.injEq]
      | _ => simp [strictEq]
  | text s => cases b <;> simp [strictEq]
  | array xs ih =>
      cases b with
      | array ys =>
          have ha := normal_array.1 ha
          have hb := normal_array.1 hb
          have hao := ordered_array.1 hao
          have hbo := ordered_array.1 hbo
          rw [strictEq, array.injEq]
          exact strictEqItems_iff fun x hx y hy => ih x hx (ha x hx) (hb y hy) (hao x hx) (hbo y hy)
      | _ => simp [strictEq]
  | object xs ih =>
      cases b with
      | object ys =>
          have ha := normal_object.1 ha
          have hb := normal_object.1 hb
          obtain ⟨hxs, hao⟩ := ordered_object.1 hao
          obtain ⟨hys, hbo⟩ := ordered_object.1 hbo
          rw [strictEq, object.injEq]
          exact strictEqFields_iff hxs hys fun p hp q hq =>
            ih p hp (ha p hp) (hb q hq) (hao p hp) (hbo q hq)
      | _ => simp [strictEq]

end Json

theorem Table.mem_of_mem_ofEntries {α : Type} {entries : List (String × α)} {p : String × α}
    (h : p ∈ Table.ofEntries entries) : p ∈ entries := by
  have : ∀ (es : List (String × α)) (t : Table α),
      p ∈ es.foldl (fun t q => t.insert q.1 q.2) t → p ∈ es ∨ p ∈ t := by
    intro es
    induction es with
    | nil => exact fun _ h => .inr h
    | cons q es ih =>
        intro t h
        rcases ih _ h with h | h
        · exact .inl (.tail _ h)
        · rcases Table.mem_keys_insert h with rfl | h
          · exact .inl List.mem_cons_self
          · exact .inr h
  exact (this entries [] h).resolve_right (List.not_mem_nil)

namespace Document

mutual

theorem ordered_of_toJson? : ∀ {d : Document} {j : Json}, d.toJson? = some j → j.Ordered
  | .null, _, h => by cases h; simp [Json.Ordered, Json.parts]
  | .boolean _, _, h => by cases h; simp [Json.Ordered, Json.parts]
  | .number _, _, h => by
      obtain ⟨n, -, rfl⟩ := Option.map_eq_some_iff.1 h
      simp [Json.Ordered, Json.parts]
  | .text _, _, h => by
      obtain ⟨s, -, rfl⟩ := Option.map_eq_some_iff.1 h
      simp [Json.Ordered, Json.parts]
  | .array _, _, h => by
      obtain ⟨items, hitems, rfl⟩ := Option.map_eq_some_iff.1 h
      exact Json.ordered_array.2 (ordered_of_itemsToJson? hitems)
  | .object _, _, h => by
      obtain ⟨fields, hfields, rfl⟩ := Option.map_eq_some_iff.1 h
      exact Json.ordered_object.2 ⟨Table.sorted_ofEntries fields, fun p hp =>
        ordered_of_fieldsToJson? hfields p (Table.mem_of_mem_ofEntries hp)⟩

theorem ordered_of_itemsToJson? : ∀ {ds : List Document} {items : List Json},
    itemsToJson? ds = some items → ∀ j ∈ items, j.Ordered
  | [], _, h => by cases h; simp
  | _ :: _, _, h => by
      obtain ⟨j, hj, h⟩ := Option.bind_eq_some_iff.1 h
      obtain ⟨items, hitems, h⟩ := Option.bind_eq_some_iff.1 h
      cases h
      exact List.forall_mem_cons.2 ⟨ordered_of_toJson? hj, ordered_of_itemsToJson? hitems⟩

theorem ordered_of_fieldsToJson? : ∀ {ds : List (Option String × Document)}
    {fields : List (String × Json)}, fieldsToJson? ds = some fields → ∀ p ∈ fields, p.2.Ordered
  | [], _, h => by cases h; simp
  | _ :: _, _, h => by
      obtain ⟨k, -, h⟩ := Option.bind_eq_some_iff.1 h
      obtain ⟨j, hj, h⟩ := Option.bind_eq_some_iff.1 h
      obtain ⟨fields, hfields, h⟩ := Option.bind_eq_some_iff.1 h
      cases h
      exact List.forall_mem_cons.2 ⟨ordered_of_toJson? hj, ordered_of_fieldsToJson? hfields⟩

end

end Document

namespace Value

def Ordered : Value → Prop
  | .json j => j.Ordered
  | _ => True

theorem Normal.same_eq_strictEq {a b : Value} (ha : a.Normal) (hb : b.Normal) (hao : a.Ordered)
    (hbo : b.Ordered) : a.same b = a.strictEq b := by
  cases a with
  | json j =>
      cases b with
      | json k =>
          have hsame : j.same k = true ↔ j = k := Json.Normal.same_iff ha hb
          have hstrict : j.strictEq k = true ↔ j = k := Json.Normal.strictEq_iff ha hb hao hbo
          exact Bool.eq_iff_iff.2 (hsame.trans hstrict.symm)
      | _ => rfl
  | undefined => cases b <;> rfl
  | function f => cases b <;> rfl

end Value

end TemplateExpr
