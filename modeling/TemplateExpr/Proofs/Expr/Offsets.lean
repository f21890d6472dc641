import TemplateExpr.Proofs.Expr.Nodes
import TemplateExpr.Proofs.Nesting.Recursion
import TemplateExpr.Proofs.Token.Shift
import TemplateExpr.Proofs.Token.Tiling

namespace TemplateExpr

namespace Expr

-- Whether a token of its own starts the node; the others start where their first operand does.
def hasToken : Expr → Bool
  | .member _ _ _ => false
  | .index _ _ _ => false
  | .binary _ _ _ _ => false
  | .ternary _ _ _ _ => false
  | _ => true

def leaves (e : Expr) : List Expr :=
  e.nodes.filter (·.children.isEmpty)

def marks (e : Expr) : List Nat :=
  (e.nodes.filter hasToken).map offset

inductive StartsWith : Expr → Token → Prop
  | literal {o l t} : Token.literal? t = some l → StartsWith (.literal o l) t
  | name (o : Nat) (s : String) : StartsWith (.name o s) (.name s)
  | call (o : Nat) (s : String) : StartsWith (.call o s) (.name s)
  | unary (o : Nat) (op : UnaryOp) (e : Expr) : StartsWith (.unary o op e) (.symbol op.symbol)
  | array (o : Nat) (items : List Expr) : StartsWith (.array o items) (.symbol .openBracket)
  | operand {x e rest t} : x.hasToken = false → x.children = e :: rest → x.offset = e.offset →
      StartsWith e t → StartsWith x t

def Anchored (e : Expr) : Prop :=
  ∀ x ∈ e.nodes, ∃ t, x.StartsWith t

def StandsAt (ts : List Located) (x : Expr) : Prop :=
  ∃ t, ⟨t, x.offset⟩ ∈ ts ∧ x.StartsWith t

theorem itemsNodes_eq_flatMap (items : List Expr) : itemsNodes items = items.flatMap nodes := by
  induction items with
  | nil => rfl
  | cons e es ih => rw [itemsNodes, ih, List.flatMap_cons]

theorem nodes_eq (x : Expr) : x.nodes = x :: x.children.flatMap nodes := by
  cases x with
  | array o items => rw [nodes, itemsNodes_eq_flatMap, children]
  | _ => simp [nodes, children]

theorem forall_mem_nodes {x : Expr} {p : Expr → Prop} :
    (∀ y ∈ x.nodes, p y) ↔ p x ∧ ∀ e ∈ x.children, ∀ y ∈ e.nodes, p y := by
  rw [nodes_eq, List.forall_mem_cons]
  simp only [List.mem_flatMap, forall_exists_index, and_imp]
  grind

theorem forall_standsAt_of_operand {ts : List Located} {x e : Expr} {rest : List Expr}
    (htoken : x.hasToken = false) (hchildren : x.children = e :: rest)
    (hoffset : x.offset = e.offset) (h : ∀ y ∈ x.children, ∀ z ∈ y.nodes, z.StandsAt ts) :
    ∀ z ∈ x.nodes, z.StandsAt ts := by
  refine forall_mem_nodes.2 ⟨?_, h⟩
  obtain ⟨t, ht, hstarts⟩ := h e (by simp [hchildren]) e e.self_mem_nodes
  exact ⟨t, hoffset ▸ ht, .operand htoken hchildren hoffset hstarts⟩

theorem induct_children {motive : Expr → Prop}
    (h : ∀ e : Expr, (∀ c ∈ e.children, motive c) → motive e) (e : Expr) : motive e := by
  induction e <;> exact h _ (by simp_all [children])

theorem nodes_sublist_of_mem_children {x e : Expr} (h : x ∈ e.children) :
    x.nodes.Sublist e.nodes := by
  rw [nodes_eq e]
  exact (List.sublist_flatten_of_mem (List.mem_map_of_mem h)).cons e

theorem mem_nodes_of_mem_children {x e : Expr} (h : x ∈ e.children) : x ∈ e.nodes :=
  (nodes_sublist_of_mem_children h).subset x.self_mem_nodes

theorem nodes_sublist_of_mem_nodes {x e : Expr} (h : x ∈ e.nodes) : x.nodes.Sublist e.nodes := by
  induction e using induct_children with
  | h e ih =>
      rw [nodes_eq, List.mem_cons, List.mem_flatMap] at h
      rcases h with rfl | ⟨c, hc, hx⟩
      · exact List.Sublist.refl _
      · exact (ih c hc hx).trans (nodes_sublist_of_mem_children hc)

theorem marks_eq (x : Expr) :
    x.marks = (if x.hasToken then [x.offset] else []) ++ x.children.flatMap marks := by
  have hbelow : ((x.children.flatMap nodes).filter hasToken).map offset =
      x.children.flatMap marks := by
    rw [List.filter_flatMap, List.map_flatMap]
    rfl
  rw [marks, nodes_eq, List.filter_cons]
  split
  · rw [List.map_cons, hbelow]
    rfl
  · exact hbelow

@[simp] theorem marks_index (o : Nat) (e k : Expr) : (index o e k).marks = e.marks ++ k.marks := by
  simp [marks_eq (index o e k), hasToken, children]

@[simp] theorem marks_unary (o : Nat) (op : UnaryOp) (e : Expr) :
    (unary o op e).marks = o :: e.marks := rfl

@[simp] theorem marks_binary (o : Nat) (op : BinaryOp) (l r : Expr) :
    (binary o op l r).marks = l.marks ++ r.marks := by
  simp [marks_eq (binary o op l r), hasToken, children]

@[simp] theorem marks_ternary (o : Nat) (p yes no : Expr) :
    (ternary o p yes no).marks = p.marks ++ (yes.marks ++ no.marks) := by
  simp [marks_eq (ternary o p yes no), hasToken, children]

@[simp] theorem marks_array (o : Nat) (items : List Expr) :
    (array o items).marks = o :: items.flatMap marks := by
  rw [marks_eq]
  rfl

theorem marks_sublist_of_mem_nodes {x e : Expr} (h : x ∈ e.nodes) : x.marks.Sublist e.marks :=
  ((nodes_sublist_of_mem_nodes h).filter hasToken).map offset

theorem StartsWith.exists_marks_eq_cons {x : Expr} {t : Token} (h : x.StartsWith t) :
    ∃ rest, x.marks = x.offset :: rest := by
  induction h with
  | @operand _ _ rest _ htoken hchildren hoffset _ ih =>
      obtain ⟨below, hbelow⟩ := ih
      refine ⟨below ++ rest.flatMap marks, ?_⟩
      rw [marks_eq, htoken, hchildren, List.flatMap_cons, hbelow, hoffset]
      rfl
  | array o items => exact ⟨_, marks_array o items⟩
  | _ => exact ⟨_, rfl⟩

section

variable {e x y : Expr}

theorem Anchored.of_mem_nodes (h : e.Anchored) (hx : x ∈ e.nodes) : x.Anchored :=
  fun y hy => h y ((nodes_sublist_of_mem_nodes hx).subset hy)

theorem Anchored.offset_mem_marks (h : e.Anchored) (hx : x ∈ e.nodes) : x.offset ∈ e.marks := by
  obtain ⟨t, ht⟩ := h x hx
  obtain ⟨rest, hrest⟩ := ht.exists_marks_eq_cons
  exact (marks_sublist_of_mem_nodes hx).subset (hrest ▸ List.mem_cons_self)

theorem Anchored.offset_le (h : x.Anchored) (hmarks : x.marks.Pairwise (· < ·))
    (hy : y ∈ x.nodes) : x.offset ≤ y.offset := by
  obtain ⟨t, ht⟩ := h x x.self_mem_nodes
  obtain ⟨rest, hrest⟩ := ht.exists_marks_eq_cons
  have hmem := h.offset_mem_marks hy
  rw [hrest] at hmarks hmem
  rcases List.mem_cons.1 hmem with heq | hlater
  · exact Nat.le_of_eq heq.symm
  · exact Nat.le_of_lt (List.rel_of_pairwise_cons hmarks hlater)

theorem Anchored.pairwise_children (h : x.Anchored) (hmarks : x.marks.Pairwise (· < ·)) :
    x.children.Pairwise fun a b => ∀ y ∈ a.nodes, ∀ z ∈ b.nodes, y.offset < z.offset := by
  rw [marks_eq] at hmarks
  have hchildren := (List.pairwise_flatMap.1 (List.pairwise_append.1 hmarks).2.1).2
  have hanchored (c : Expr) (hc : c ∈ x.children) : c.Anchored :=
    h.of_mem_nodes (mem_nodes_of_mem_children hc)
  refine hchildren.imp_of_mem fun ha hb hlt y hy z hz => ?_
  exact hlt _ ((hanchored _ ha).offset_mem_marks hy) _ ((hanchored _ hb).offset_mem_marks hz)

theorem hasToken_of_isEmpty_children (h : x.children.isEmpty) : x.hasToken = true := by
  cases x <;> simp_all [children, hasToken]

theorem pairwise_leaves (h : e.marks.Pairwise (· < ·)) :
    e.leaves.Pairwise (·.offset < ·.offset) := by
  have hleaves : e.leaves = (e.nodes.filter hasToken).filter (·.children.isEmpty) := by
    rw [List.filter_filter, leaves]
    refine List.filter_congr fun x _ => ?_
    rw [Bool.eq_self_and]
    exact hasToken_of_isEmpty_children
  rw [hleaves]
  exact (List.pairwise_map.1 h).sublist List.filter_sublist

end

end Expr

namespace Grammar

-- The rest of an array stands behind the bracket that starts it.
def Category.opened : Category → List Located
  | .arrayTail o => [⟨.symbol .openBracket, o⟩]
  | _ => []

variable {c : Category} {ts : List Located} {e : Expr} {n : Nat}

theorem Callee.offset_sublist {o : Nat} {s : String} (h : Callee o s ts n) :
    [o].Sublist (ts.map Located.offset) :=
  h.located_sublist.map Located.offset

theorem Derives.marks_sublist (h : Derives c ts e n) :
    e.marks.Sublist (c.opened.map Located.offset ++ ts.map Located.offset) := by
  induction h with
  | plain _ ih => exact ih
  | ternary a b _ _ _ ihp ihy ihn =>
      simp only [Expr.marks_ternary, List.map_append, List.map_cons]
      exact ihp.append ((ihy.append (ihn.cons _)).cons _)
  | single hc _ ih => cases hc <;> exact ih
  | operator op a _ _ hc _ ihx ihy =>
      simp only [Expr.marks_binary, List.map_append, List.map_cons]
      cases hc <;> exact ihx.append (ihy.cons _)
  | suffixed _ ih => exact ih
  | unary op o _ ih => exact ih.cons_cons o
  | primary _ ih => exact ih
  | member a _ _ ih =>
      rw [List.map_append]
      exact ih.trans (List.sublist_append_left _ _)
  | index a b _ _ ih ihk =>
      simp only [Expr.marks_index, List.map_append, List.map_cons]
      exact ih.append ((ihk.trans (List.sublist_append_left _ _)).cons _)
  | call a b hc =>
      rw [List.map_append]
      exact hc.offset_sublist.trans (List.sublist_append_left _ _)
  | literal o _ => exact List.Sublist.refl _
  | name o s => exact List.Sublist.refl _
  | parens a b _ ih =>
      simp only [List.map_append, List.map_cons]
      exact (ih.trans (List.sublist_append_left _ _)).cons _
  | array o _ ih => exact ih
  | close o b => exact List.sublist_append_left _ _
  | last o b _ ih =>
      simp only [Expr.marks_array, List.flatMap_singleton, List.map_append]
      exact (ih.trans (List.sublist_append_left _ _)).cons_cons o
  | item o a _ _ ih ihs =>
      simp only [Expr.marks_array, List.flatMap_cons, List.map_append, List.map_cons] at ihs ⊢
      exact (ih.append (ihs.of_cons_cons.cons _)).cons_cons o

theorem Derives.standsAt (h : Derives c ts e n) :
    ∀ x ∈ e.nodes, x.StandsAt (c.opened ++ ts) := by
  induction h with
  | plain _ ih => exact ih
  | ternary a b _ _ _ ihp ihy ihn =>
      refine Expr.forall_standsAt_of_operand rfl rfl rfl ?_
      grind [Expr.children, Expr.StandsAt, Category.opened]
  | single hc _ ih => cases hc <;> exact ih
  | operator op a _ _ hc _ ihx ihy =>
      refine Expr.forall_standsAt_of_operand rfl rfl rfl ?_
      cases hc <;> grind [Expr.children, Expr.StandsAt, Category.opened]
  | suffixed _ ih => exact ih
  | unary op o _ ih =>
      refine Expr.forall_mem_nodes.2 ⟨⟨_, List.mem_cons_self, .unary o op _⟩, ?_⟩
      grind [Expr.children, Expr.StandsAt, Category.opened]
  | primary _ ih => exact ih
  | member a _ _ ih =>
      refine Expr.forall_standsAt_of_operand rfl rfl rfl ?_
      grind [Expr.children, Expr.StandsAt, Category.opened]
  | index a b _ _ ih ihk =>
      refine Expr.forall_standsAt_of_operand rfl rfl rfl ?_
      grind [Expr.children, Expr.StandsAt, Category.opened]
  | @call us o s _ a b hc =>
      have hname : ⟨.name s, o⟩ ∈ us := hc.located_sublist.subset (List.mem_singleton_self _)
      have hmem := List.mem_append_right [] (List.mem_append_left
        [⟨.symbol .openParen, a⟩, ⟨.symbol .closeParen, b⟩] hname)
      exact Expr.forall_mem_nodes.2 ⟨⟨.name s, hmem, .call o s⟩, List.forall_mem_nil _⟩
  | literal o hl =>
      exact Expr.forall_mem_nodes.2
        ⟨⟨_, List.mem_singleton_self _, .literal hl⟩, List.forall_mem_nil _⟩
  | name o s =>
      exact Expr.forall_mem_nodes.2
        ⟨⟨_, List.mem_singleton_self _, .name o s⟩, List.forall_mem_nil _⟩
  | parens a b _ ih => grind [Expr.StandsAt, Category.opened]
  | array o _ ih => exact ih
  | close o b =>
      exact Expr.forall_mem_nodes.2
        ⟨⟨_, List.mem_cons_self, .array o []⟩, List.forall_mem_nil _⟩
  | last o b _ ih =>
      refine Expr.forall_mem_nodes.2 ⟨⟨_, List.mem_cons_self, .array o _⟩, ?_⟩
      grind [Expr.children, Expr.StandsAt, Category.opened]
  | item o a _ _ ih ihs =>
      have hitems := (Expr.forall_mem_nodes.1 ihs).2
      refine Expr.forall_mem_nodes.2 ⟨⟨_, List.mem_cons_self, .array o _⟩, ?_⟩
      grind [Expr.children, Expr.StandsAt, Category.opened]

theorem Derives.marks_pairwise (h : Derives .expression (upToStop ts) e n)
    (hts : ts.Pairwise (·.offset < ·.offset)) : e.marks.Pairwise (· < ·) :=
  (List.pairwise_map.2 (hts.sublist (List.takeWhile_sublist _))).sublist h.marks_sublist

end Grammar

theorem Expr.offsets_locate {limit : Nat} {source : String} {e : Expr}
    (h : Expr.parse limit source = .ok e) :
    ∃ ts, Token.scan source = .ok ts ∧
      (∀ x ∈ e.nodes, ∃ t pre rest us, ⟨t, x.offset⟩ ∈ ts ∧ x.StartsWith t ∧
        source.toList = pre ++ rest ∧ Text.size pre = x.offset ∧
          Token.scan (String.ofList rest) = .ok (⟨t, 0⟩ :: us)) ∧
      (∀ x ∈ e.nodes, ∀ y ∈ x.nodes, x.offset ≤ y.offset) ∧
      (∀ x ∈ e.nodes,
        x.children.Pairwise fun a b => ∀ y ∈ a.nodes, ∀ z ∈ b.nodes, y.offset < z.offset) ∧
      e.leaves.Pairwise (·.offset < ·.offset) := by
  obtain ⟨ts, hscan, hread⟩ := bind_eq_ok.1 h
  obtain ⟨n, -, hd⟩ := Grammar.derives_of_ofTokens hread
  have hscans := Token.scans_of_scanFrom hscan
  have hmarks := hd.marks_pairwise hscans.tiles.offsets.2
  have hbelow (x : Expr) (hx : x ∈ e.nodes) : x.marks.Pairwise (· < ·) :=
    hmarks.sublist (marks_sublist_of_mem_nodes hx)
  have hanchored : e.Anchored := fun x hx => (hd.standsAt x hx).imp fun t ht => ht.2
  refine ⟨ts, hscan, fun x hx => ?_,
    fun x hx y => (hanchored.of_mem_nodes hx).offset_le (hbelow x hx),
    fun x hx => (hanchored.of_mem_nodes hx).pairwise_children (hbelow x hx),
    pairwise_leaves hmarks⟩
  obtain ⟨t, ht, hstarts⟩ := hd.standsAt x hx
  have hmem : ⟨t, x.offset⟩ ∈ ts := (List.takeWhile_sublist _).subset ht
  obtain ⟨pre, rest, us, hsource, hoffset, hrest⟩ := hscans.scans_of_mem hmem
  obtain ⟨vs, hvs, -⟩ := Token.exists_scanFrom_zero hrest.scanFrom_eq_ok
  refine ⟨t, pre, rest, vs, hmem, hstarts, hsource, ?_, ?_⟩
  · exact (hoffset.trans (Nat.zero_add _)).symm
  · rw [Token.scan, String.toList_ofList, hvs]

theorem Expr.offsets_locate_of_group :
    Expr.parse 9 "(a)+-b" = .ok (.binary 1 .add (.name 1 "a") (.unary 4 .neg (.name 5 "b"))) ∧
      ∃ pre rest us, "(a)+-b".toList = pre ++ rest ∧ Text.size pre = 5 ∧
        Token.scan (String.ofList rest) = .ok (⟨.name "b", 0⟩ :: us) := by
  have hparse : Expr.parse 9 "(a)+-b" =
      .ok (.binary 1 .add (.name 1 "a") (.unary 4 .neg (.name 5 "b"))) := by with_unfolding_all rfl
  obtain ⟨_, -, hlocate, -⟩ := Expr.offsets_locate hparse
  obtain ⟨t, pre, rest, us, -, hstarts, hsource, hsize, hscan⟩ :=
    hlocate (.name 5 "b") (by simp [nodes])
  cases hstarts with
  | name => exact ⟨hparse, pre, rest, us, hsource, hsize, hscan⟩
  | operand htoken => cases htoken

end TemplateExpr
