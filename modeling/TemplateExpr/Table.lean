namespace TemplateExpr

abbrev Table (α : Type) := List (String × α)

namespace Table

variable {α : Type}

def Sorted (t : Table α) : Prop :=
  t.Pairwise fun p q => p.1 < q.1

def insert (key : String) (value : α) : Table α → Table α
  | [] => [(key, value)]
  | (k, v) :: rest =>
      if key < k then (key, value) :: (k, v) :: rest
      else if key = k then (key, value) :: rest
      else (k, v) :: insert key value rest

def ofEntries (entries : List (String × α)) : Table α :=
  entries.foldl (fun t p => t.insert p.1 p.2) []

theorem lookup_insert (key : String) (value : α) (t : Table α) (k : String) :
    (t.insert key value).lookup k = if k = key then some value else t.lookup k := by
  fun_induction insert key value t with
  | case1 => simp only [List.lookup_cons]; split <;> simp_all
  | case2 => simp only [List.lookup_cons]; split <;> simp_all
  | case3 => simp only [List.lookup_cons]; split <;> simp_all
  | case4 l v rest _ hne ih =>
      simp only [List.lookup_cons]
      split
      · rename_i h
        have : k = l := by simpa using h
        subst this
        rw [if_neg (fun e => hne e.symm)]
      · exact ih

theorem mem_keys_insert {key : String} {value : α} {t : Table α} {p : String × α}
    (h : p ∈ t.insert key value) : p = (key, value) ∨ p ∈ t := by
  fun_induction insert key value t with
  | case1 => simp_all
  | case2 => simp_all
  | case3 => grind
  | case4 l v rest _ _ ih => grind

theorem sorted_insert (key : String) (value : α) {t : Table α} (h : Sorted t) :
    Sorted (t.insert key value) := by
  fun_induction insert key value t with
  | case1 => simp [Sorted]
  | case2 l v rest hlt =>
      refine List.Pairwise.cons (fun q hq => ?_) h
      rcases List.mem_cons.1 hq with rfl | hq
      · exact hlt
      · exact String.lt_trans hlt (List.rel_of_pairwise_cons h hq)
  | case3 v rest _ => exact List.Pairwise.cons (fun q hq => List.rel_of_pairwise_cons h hq) h.of_cons
  | case4 l v rest hlt hne ih =>
      refine List.Pairwise.cons (fun q hq => ?_) (ih h.of_cons)
      rcases mem_keys_insert hq with rfl | hq
      · exact String.not_le.1 fun hle => hne (String.le_antisymm hle (String.not_lt.1 hlt))
      · exact List.rel_of_pairwise_cons h hq

theorem sorted_ofEntries (entries : List (String × α)) : Sorted (ofEntries entries) := by
  have : ∀ (es : List (String × α)) (t : Table α), Sorted t →
      Sorted (es.foldl (fun t p => t.insert p.1 p.2) t) := by
    intro es
    induction es with
    | nil => exact fun _ h => h
    | cons p es ih => exact fun t h => ih _ (sorted_insert p.1 p.2 h)
  exact this entries [] List.Pairwise.nil

end Table

end TemplateExpr
