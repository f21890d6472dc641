import TemplateExpr.Proofs.Grammar.Reading
import TemplateExpr.Proofs.Token.Tiling

namespace TemplateExpr

mutual

def Expr.nodes : Expr → List Expr
  | .literal o l => [.literal o l]
  | .name o s => [.name o s]
  | .member o e p => .member o e p :: e.nodes
  | .index o e k => .index o e k :: (e.nodes ++ k.nodes)
  | .unary o op e => .unary o op e :: e.nodes
  | .binary o op l r => .binary o op l r :: (l.nodes ++ r.nodes)
  | .ternary o p yes no => .ternary o p yes no :: (p.nodes ++ (yes.nodes ++ no.nodes))
  | .array o items => .array o items :: Expr.itemsNodes items
  | .call o s => [.call o s]

def Expr.itemsNodes : List Expr → List Expr
  | [] => []
  | e :: es => e.nodes ++ Expr.itemsNodes es

end

theorem Expr.self_mem_nodes (x : Expr) : x ∈ x.nodes := by
  cases x <;> exact List.mem_cons_self

structure Occurrence where
  offset : Nat
  name : String

def Occurrence.located (o : Occurrence) : Located :=
  ⟨.name o.name, o.offset⟩

def Expr.occurrence? : Expr → Option Occurrence
  | .name o s => some ⟨o, s⟩
  | .call o s => some ⟨o, s⟩
  | _ => none

def Expr.occurrences (e : Expr) : List Occurrence :=
  e.nodes.filterMap Expr.occurrence?

namespace Expr

@[simp] theorem occurrences_index (o : Nat) (e k : Expr) :
    (index o e k).occurrences = e.occurrences ++ k.occurrences := by
  rw [occurrences, nodes, List.filterMap_cons_none rfl, List.filterMap_append]
  rfl

@[simp] theorem occurrences_binary (o : Nat) (op : BinaryOp) (l r : Expr) :
    (binary o op l r).occurrences = l.occurrences ++ r.occurrences := by
  rw [occurrences, nodes, List.filterMap_cons_none rfl, List.filterMap_append]
  rfl

@[simp] theorem occurrences_ternary (o : Nat) (p yes no : Expr) :
    (ternary o p yes no).occurrences = p.occurrences ++ (yes.occurrences ++ no.occurrences) := by
  rw [occurrences, nodes, List.filterMap_cons_none rfl, List.filterMap_append,
    List.filterMap_append]
  rfl

@[simp] theorem occurrences_array_nil (o : Nat) : (array o []).occurrences = [] := rfl

@[simp] theorem occurrences_array_cons (o : Nat) (e : Expr) (es : List Expr) :
    (array o (e :: es)).occurrences = e.occurrences ++ (array o es).occurrences := by
  rw [occurrences, nodes, itemsNodes, List.filterMap_cons_none rfl, List.filterMap_append]
  rfl

end Expr

namespace Grammar

variable {ts : List Located} {e : Expr} {n : Nat}

theorem Callee.located_sublist {o : Nat} {s : String} (h : Callee o s ts n) :
    [⟨.name s, o⟩].Sublist ts := by
  induction h with
  | bare => exact List.Sublist.refl _
  | parens a b _ ih => exact (ih.trans (List.sublist_append_left _ _)).cons _

theorem Derives.occurrences_sublist {c : Category} (h : Derives c ts e n) :
    (e.occurrences.map Occurrence.located).Sublist ts := by
  induction h with
  | plain _ ih => exact ih
  | ternary a b _ _ _ ihp ihy ihn =>
      rw [Expr.occurrences_ternary, List.map_append, List.map_append]
      exact ihp.append ((ihy.append (ihn.cons _)).cons _)
  | single _ _ ih => exact ih
  | operator op a _ _ _ _ ihx ihy =>
      rw [Expr.occurrences_binary, List.map_append]
      exact ihx.append (ihy.cons _)
  | suffixed _ ih => exact ih
  | unary op o _ ih => exact ih.cons _
  | primary _ ih => exact ih
  | member a _ _ ih => exact ih.trans (List.sublist_append_left _ _)
  | index a b _ _ ih ihk =>
      rw [Expr.occurrences_index, List.map_append]
      exact ih.append ((ihk.trans (List.sublist_append_left _ _)).cons _)
  | call a b hc => exact hc.located_sublist.trans (List.sublist_append_left _ _)
  | literal o _ => exact List.nil_sublist _
  | name o s => exact List.Sublist.refl _
  | parens a b _ ih => exact (ih.trans (List.sublist_append_left _ _)).cons _
  | array o _ ih => exact ih.cons _
  | close o b => exact List.nil_sublist _
  | last o b _ ih =>
      rw [Expr.occurrences_array_cons, Expr.occurrences_array_nil, List.append_nil]
      exact ih.trans (List.sublist_append_left _ _)
  | item o a _ _ ih ihs =>
      rw [Expr.occurrences_array_cons, List.map_append]
      exact ih.append (ihs.cons _)

theorem Derives.literal_mem {c : Category} (h : Derives c ts e n) {o : Nat} {l : Literal}
    (hl : .literal o l ∈ e.nodes) : ∃ t, ⟨t, o⟩ ∈ ts ∧ Token.literal? t = some l := by
  induction h with
  | @literal t l' o' hlit =>
      simp only [Expr.nodes, List.mem_singleton, Expr.literal.injEq] at hl
      obtain ⟨rfl, rfl⟩ := hl
      exact ⟨t, List.mem_singleton_self _, hlit⟩
  | _ => grind [Expr.nodes, Expr.itemsNodes]

end Grammar

namespace Expr

variable {limit : Nat} {source : String} {x : Expr}

theorem leaves_of_parse (h : Expr.parse limit source = .ok x) :
    ∃ ts, Token.scan source = .ok ts ∧ (x.occurrences.map Occurrence.located).Sublist ts ∧
      ∀ o l, .literal o l ∈ x.nodes → ∃ t, ⟨t, o⟩ ∈ ts ∧ Token.literal? t = some l := by
  obtain ⟨ts, hts, hx⟩ := bind_eq_ok.1 h
  obtain ⟨n, -, hd⟩ := Grammar.derives_of_ofTokens hx
  have hsub : (Grammar.upToStop ts).Sublist ts := List.takeWhile_sublist _
  refine ⟨ts, hts, hd.occurrences_sublist.trans hsub, ?_⟩
  intro o l hl
  obtain ⟨t, ht, hlit⟩ := hd.literal_mem hl
  exact ⟨t, hsub.subset ht, hlit⟩

theorem occurrences_increase (h : Expr.parse limit source = .ok x) :
    x.occurrences.Pairwise (·.offset < ·.offset) := by
  obtain ⟨ts, hts, hsub, -⟩ := leaves_of_parse h
  have hincrease := (Token.scans_of_scanFrom hts).tiles.offsets.2.sublist hsub
  rwa [List.pairwise_map] at hincrease

theorem literal?_of_parse (h : Expr.parse limit source = .ok x) {o : Nat} {l : Literal}
    (hl : .literal o l ∈ x.nodes) {ts : List Located} (hts : Token.scan source = .ok ts) {t : Token}
    (ht : ⟨t, o⟩ ∈ ts) : Token.literal? t = some l := by
  obtain ⟨us, hus, -, hliterals⟩ := leaves_of_parse h
  cases hts.symm.trans hus
  obtain ⟨u, hu, hlit⟩ := hliterals o l hl
  have he := (Token.scans_of_scanFrom hts).tiles.eq_of_offset_eq ht hu rfl
  cases he
  exact hlit

end Expr

end TemplateExpr
