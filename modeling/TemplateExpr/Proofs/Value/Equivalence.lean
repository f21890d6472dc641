import TemplateExpr.Proofs.Double.Order
import TemplateExpr.Proofs.Value.Equality
import TemplateExpr.Value.Operators

namespace TemplateExpr

namespace Table

variable {α : Type} {s t : Table α}

theorem eq_of_mem (h : (t.map Prod.fst).Nodup) {k : String} {v w : α} (hv : (k, v) ∈ t)
    (hw : (k, w) ∈ t) : v = w := by
  rw [← lookup_eq_some_iff h] at hv hw
  exact Option.some.inj (hv.symm.trans hw)

theorem keys_subset_of_length (hs : (s.map Prod.fst).Nodup) (hlength : s.length = t.length)
    (h : s.map Prod.fst ⊆ t.map Prod.fst) : t.map Prod.fst ⊆ s.map Prod.fst := by
  have hle : (t.map Prod.fst).length ≤ (s.map Prod.fst).length := by
    rw [List.length_map, List.length_map, hlength]
  exact ((List.subperm_of_subset hs h).perm_of_length_le hle).symm.subset

end Table

theorem Number.same_toDouble_of_same {m n : Number} (h : m.same n = true) :
    m.toDouble.same n.toDouble = true := by
  cases m with
  | integer m =>
      cases n with
      | integer n =>
          rw [same, beq_iff_eq] at h
          rw [h]
          exact Double.same_self (toDouble_ne_nan _)
      | double y => cases h
  | double x =>
      cases n with
      | integer n => cases h
      | double y => exact h

namespace Json

def UniqueKeys (j : Json) : Prop :=
  j.EveryObject fun fields => (fields.map Prod.fst).Nodup

theorem uniqueKeys_array {items : List Json} :
    (array items).UniqueKeys ↔ ∀ j ∈ items, j.UniqueKeys :=
  everyObject_array

theorem uniqueKeys_object {fields : List (String × Json)} :
    (object fields).UniqueKeys ↔
      (fields.map Prod.fst).Nodup ∧ ∀ p ∈ fields, p.2.UniqueKeys :=
  everyObject_object

theorem uniqueKeys_of_toJson? {d : Document} {j : Json} (h : d.toJson? = some j) : j.UniqueKeys :=
  fun fields hfields => (Document.ordered_of_toJson? h fields hfields).nodup_keys

variable {a b c : Json} {xs ys zs : List Json} {fs gs hs : List (String × Json)}

theorem strictEq_object : (object fs).strictEq (object gs) = true ↔ fs.length = gs.length ∧
    ∀ p ∈ fs, ∃ j, gs.lookup p.1 = some j ∧ p.2.strictEq j = true := by
  rw [strictEq, Bool.and_eq_true, beq_iff_eq, strictEqFields_eq_true]

theorem strictEq_self (ha : a.UniqueKeys) : a.strictEq a = true := by
  induction a using induct with
  | null => rfl
  | boolean b => simp [strictEq]
  | number n => exact Double.same_self n.toDouble_ne_nan
  | text s => simp [strictEq]
  | array xs ih =>
      have hxs := uniqueKeys_array.1 ha
      exact strictEqItems_eq_true.2 (List.forall₂_same.2 fun x hx => ih x hx (hxs x hx))
  | object fs ih =>
      obtain ⟨hkeys, hfs⟩ := uniqueKeys_object.1 ha
      refine strictEq_object.2 ⟨rfl, fun p hp => ⟨p.2, ?_, ih p hp (hfs p hp)⟩⟩
      exact (Table.lookup_eq_some_iff hkeys).2 hp

theorem strictEq_object_symm (hfs : (fs.map Prod.fst).Nodup) (hgs : (gs.map Prod.fst).Nodup)
    (hlength : fs.length = gs.length)
    (h : ∀ p ∈ fs, ∃ j, gs.lookup p.1 = some j ∧ j.strictEq p.2 = true) :
    (object gs).strictEq (object fs) = true := by
  simp only [Table.lookup_eq_some_iff hgs] at h
  have hsubset : fs.map Prod.fst ⊆ gs.map Prod.fst := by
    intro k hk
    obtain ⟨p, hp, rfl⟩ := List.mem_map.1 hk
    obtain ⟨j, hj, -⟩ := h p hp
    exact List.mem_map.2 ⟨(p.1, j), hj, rfl⟩
  refine strictEq_object.2 ⟨hlength.symm, fun q hq => ?_⟩
  have hkey := Table.keys_subset_of_length hfs hlength hsubset (List.mem_map.2 ⟨q, hq, rfl⟩)
  obtain ⟨p, hp, hpq⟩ := List.mem_map.1 hkey
  obtain ⟨j, hj, heq⟩ := h p hp
  rw [hpq] at hj
  rw [Table.eq_of_mem hgs hj hq] at heq
  exact ⟨p.2, (Table.lookup_eq_some_iff hfs).2 (hpq ▸ hp), heq⟩

theorem strictEq_symm (ha : a.UniqueKeys) (hb : b.UniqueKeys) (h : a.strictEq b = true) :
    b.strictEq a = true := by
  refine strictEq_induct (motive := fun a b => a.UniqueKeys → b.UniqueKeys → b.strictEq a = true)
    ?null ?boolean ?number ?text ?array ?object h ha hb
  case null => exact fun _ _ => rfl
  case boolean => exact fun x _ _ => beq_self_eq_true x
  case number => exact fun m n hmn _ _ => Double.same_comm hmn
  case text => exact fun s _ _ => beq_self_eq_true s
  case array =>
    intro xs ys hitems hxs hys
    rw [uniqueKeys_array] at hxs hys
    rw [strictEq, strictEqItems_eq_true]
    induction hitems with
    | nil => exact .nil
    | cons hxy _ ih =>
        obtain ⟨hx, hxs⟩ := List.forall_mem_cons.1 hxs
        obtain ⟨hy, hys⟩ := List.forall_mem_cons.1 hys
        exact .cons (hxy.2 hx hy) (ih hxs hys)
  case object =>
    intro fs gs hlength hfields ha hb
    obtain ⟨hfkeys, hfs⟩ := uniqueKeys_object.1 ha
    obtain ⟨hgkeys, hgs⟩ := uniqueKeys_object.1 hb
    refine strictEq_object_symm hfkeys hgkeys hlength fun p hp => ?_
    obtain ⟨j, hj, -, hsymm⟩ := hfields p hp
    exact ⟨j, hj, hsymm (hfs p hp) (hgs _ ((Table.lookup_eq_some_iff hgkeys).1 hj))⟩

theorem strictEq_trans (hab : a.strictEq b = true) (hbc : b.strictEq c = true) :
    a.strictEq c = true := by
  refine strictEq_induct (motive := fun a b => ∀ c, b.strictEq c = true → a.strictEq c = true)
    ?null ?boolean ?number ?text ?array ?object hab c hbc
  case null => exact fun _ h => h
  case boolean => exact fun _ _ h => h
  case number =>
    intro m n hmn c hc
    cases c with
    | number o => exact Double.same_trans hmn hc
    | _ => cases hc
  case text => exact fun _ _ h => h
  case array =>
    intro xs ys hitems c hc
    cases c with
    | array zs =>
        rw [strictEq, strictEqItems_eq_true] at hc ⊢
        induction hitems generalizing zs with
        | nil => exact hc
        | cons hxy _ ih =>
            cases hc with
            | cons hyz hrest => exact .cons (hxy.2 _ hyz) (ih _ hrest)
    | _ => cases hc
  case object =>
    intro fs gs hfg hfields c hc
    cases c with
    | object hs =>
        obtain ⟨hgh, hgfields⟩ := strictEq_object.1 hc
        refine strictEq_object.2 ⟨hfg.trans hgh, fun p hp => ?_⟩
        obtain ⟨y, hy, -, htrans⟩ := hfields p hp
        obtain ⟨before, after, rfl, -⟩ := List.lookup_eq_some_iff.1 hy
        obtain ⟨z, hz, hyz⟩ := hgfields (p.1, y) (by simp)
        exact ⟨z, hz, htrans z hyz⟩
    | _ => cases hc

theorem strictEqItems_of_same
    (h : ∀ x ∈ xs, ∀ y ∈ ys, x.same y = true → x.strictEq y = true)
    (hxy : sameItems xs ys = true) : strictEqItems xs ys = true := by
  induction xs generalizing ys with
  | nil =>
      cases ys with
      | nil => rfl
      | cons y ys => cases hxy
  | cons x xs ih =>
      cases ys with
      | nil => cases hxy
      | cons y ys =>
          rw [sameItems, Bool.and_eq_true] at hxy
          rw [strictEqItems, Bool.and_eq_true]
          refine ⟨h x List.mem_cons_self y List.mem_cons_self hxy.1, ih ?_ hxy.2⟩
          exact fun x hx y hy => h x (.tail _ hx) y (.tail _ hy)

theorem exists_of_sameFields (h : sameFields fs gs = true) :
    fs.length = gs.length ∧ ∀ p ∈ fs, ∃ j, (p.1, j) ∈ gs ∧ p.2.same j = true := by
  induction fs generalizing gs with
  | nil =>
      cases gs with
      | nil => simp
      | cons q gs => cases h
  | cons p fs ih =>
      cases gs with
      | nil => cases h
      | cons q gs =>
          rw [sameFields, Bool.and_eq_true, Bool.and_eq_true, beq_iff_eq] at h
          obtain ⟨⟨hkey, hpq⟩, hrest⟩ := h
          obtain ⟨hlength, hfields⟩ := ih hrest
          refine ⟨by simp [hlength], List.forall_mem_cons.2 ⟨⟨q.2, ?_, hpq⟩, fun r hr => ?_⟩⟩
          · simp [hkey]
          · obtain ⟨j, hj, heq⟩ := hfields r hr
            exact ⟨j, .tail _ hj, heq⟩

theorem strictEq_of_same (hb : b.UniqueKeys) (h : a.same b = true) : a.strictEq b = true := by
  induction a using induct generalizing b with
  | null => cases b <;> simp_all [same, strictEq]
  | boolean x => cases b <;> simp_all [same, strictEq]
  | number m =>
      cases b with
      | number n => exact Number.same_toDouble_of_same h
      | _ => cases h
  | text s => cases b <;> simp_all [same, strictEq]
  | array xs ih =>
      cases b with
      | array ys =>
          have hys := uniqueKeys_array.1 hb
          exact strictEqItems_of_same (fun x hx y hy => ih x hx (hys y hy)) h
      | _ => cases h
  | object fs ih =>
      cases b with
      | object gs =>
          obtain ⟨hkeys, hgs⟩ := uniqueKeys_object.1 hb
          obtain ⟨hlength, hfields⟩ := exists_of_sameFields h
          refine strictEq_object.2 ⟨hlength, fun p hp => ?_⟩
          obtain ⟨j, hj, heq⟩ := hfields p hp
          exact ⟨j, (Table.lookup_eq_some_iff hkeys).2 hj, ih p hp (hgs _ hj) heq⟩
      | _ => cases h

theorem strictEq_of_perm (ha : (object fs).UniqueKeys) (h : fs.Perm gs) :
    (object fs).strictEq (object gs) = true := by
  obtain ⟨hkeys, hfs⟩ := uniqueKeys_object.1 ha
  have hgs : (gs.map Prod.fst).Nodup := (h.map Prod.fst).nodup_iff.1 hkeys
  refine strictEq_object.2 ⟨h.length_eq, fun p hp => ⟨p.2, ?_, strictEq_self (hfs p hp)⟩⟩
  exact (Table.lookup_eq_some_iff hgs).2 (h.subset hp)

end Json

namespace Value

def UniqueKeys : Value → Prop
  | .json j => j.UniqueKeys
  | _ => True

theorem strictEq_self {a : Value} (ha : a.UniqueKeys) : a.strictEq a = true := by
  cases a with
  | undefined => rfl
  | json j => exact Json.strictEq_self ha
  | function f => simp [strictEq]

theorem eq_or_json_of_strictEq {a b : Value} (h : a.strictEq b = true) :
    a = b ∨ ∃ j k, a = json j ∧ b = json k ∧ j.strictEq k = true := by
  cases a with
  | undefined => cases b <;> simp_all [strictEq]
  | json j =>
      cases b with
      | json k => exact .inr ⟨j, k, rfl, rfl, h⟩
      | _ => cases h
  | function f => cases b <;> simp_all [strictEq]

theorem strictEq_symm {a b : Value} (ha : a.UniqueKeys) (hb : b.UniqueKeys)
    (h : a.strictEq b = true) : b.strictEq a = true := by
  rcases eq_or_json_of_strictEq h with rfl | ⟨j, k, rfl, rfl, hjk⟩
  · exact h
  · exact Json.strictEq_symm ha hb hjk

theorem strictEq_trans {a b c : Value} (hab : a.strictEq b = true) (hbc : b.strictEq c = true) :
    a.strictEq c = true := by
  rcases eq_or_json_of_strictEq hab with rfl | ⟨j, k, rfl, rfl, hjk⟩
  · exact hbc
  · rcases eq_or_json_of_strictEq hbc with rfl | ⟨k, l, hk, rfl, hkl⟩
    · exact hab
    · cases hk
      exact Json.strictEq_trans hjk hkl

theorem strictEq_of_same {a b : Value} (hb : b.UniqueKeys) (h : a.same b = true) :
    a.strictEq b = true := by
  cases a with
  | undefined => cases b <;> simp_all [same, strictEq]
  | json j =>
      cases b with
      | json k => exact Json.strictEq_of_same hb h
      | _ => cases h
  | function f => cases b <;> simp_all [same, strictEq]

theorem strictEq_equivalence :
    (Equivalence fun a b : { v : Value // v.UniqueKeys } => a.1.strictEq b.1 = true) ∧
      (∀ a b : Value, b.UniqueKeys → a.same b = true → a.strictEq b = true) ∧
      ∀ fs gs : List (String × Json), (json (.object fs)).UniqueKeys → fs.Perm gs →
        (json (.object fs)).strictEq (json (.object gs)) = true := by
  refine ⟨⟨fun a => strictEq_self a.2, ?_, ?_⟩, fun a b => strictEq_of_same, fun fs gs => ?_⟩
  · exact fun {a b} h => strictEq_symm a.2 b.2 h
  · exact fun hab hbc => strictEq_trans hab hbc
  · exact Json.strictEq_of_perm

theorem strictEq_equivalence_of_mixed :
    (json (.array [.number (.integer 1)])).strictEq
      (json (.array [.number (.double (.ofNat false (k := 1) (by decide)))])) = true ∧
    (json (.array [.number (.double (.ofNat false (k := 1) (by decide)))])).strictEq
      (json (.array [.number (.integer 1)])) = true ∧
    (integer 1).same (integer 1) = true ∧ (integer 1).strictEq (integer 1) = true ∧
    (json (.object [("k", .null), ("l", .text "")])).UniqueKeys ∧
      (json (.object [("k", .null), ("l", .text "")])).strictEq
        (json (.object [("l", .text ""), ("k", .null)])) = true := by
  obtain ⟨hequivalence, hsame, hperm⟩ := strictEq_equivalence
  have hnumber (n : Number) : (json (.number n)).UniqueKeys := by
    simp [UniqueKeys, Json.UniqueKeys, Json.EveryObject, Json.parts]
  have harray (n : Number) : (json (.array [.number n])).UniqueKeys :=
    Json.uniqueKeys_array.2 (List.forall_mem_singleton.2 (hnumber n))
  have hobject : (json (.object [("k", .null), ("l", .text "")])).UniqueKeys := by
    simp [UniqueKeys, Json.UniqueKeys, Json.EveryObject, Json.parts, Json.fieldsParts]
  have hone : (json (.array [.number (.integer 1)])).strictEq
      (json (.array [.number (.double (.ofNat false (k := 1) (by decide)))])) = true := by
    decide +kernel
  refine ⟨hone, ?_, by decide, ?_, hobject, ?_⟩
  · exact hequivalence.symm (x := ⟨_, harray _⟩) (y := ⟨_, harray _⟩) hone
  · exact hsame (integer 1) (integer 1) (hnumber _) (by decide)
  · exact hperm _ _ hobject (List.Perm.swap _ _ _)

end Value

end TemplateExpr
