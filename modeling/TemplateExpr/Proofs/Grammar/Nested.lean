import TemplateExpr.Expr.Rule
import TemplateExpr.Outcome

namespace TemplateExpr.Rule

variable {f g : Rule} {b : Nat}

def AgreeUpTo (b : Nat) (f g : Rule) : Prop :=
  ∀ b' ≤ b, f b' = g b'

theorem AgreeUpTo.mono {b' : Nat} (h : AgreeUpTo b f g) (hb : b' ≤ b) : AgreeUpTo b' f g :=
  fun b'' hb'' => h b'' (Nat.le_trans hb'' hb)

theorem items_congr (h : f b = g b) (left : Nat) (c : Cursor) :
    items f b left c = items g b left c := by
  induction left generalizing c with
  | zero => rfl
  | succ left ih => simp only [items, h, ih]

theorem primary_congr (h : AgreeUpTo b f g) : AgreeUpTo b (primary f) (primary g) := by
  intro b' hb'
  funext c
  simp only [primary, h b' hb', items_congr (h b' hb')]

theorem suffixes_congr (h : AgreeUpTo b f g) (e : Expr) (c : Cursor) :
    suffixes f b e c = suffixes g b e c := by
  induction b generalizing e c with
  | zero => simp only [suffixes]
  | succ b ih =>
      have hb : f b = g b := h b (Nat.le_succ b)
      simp only [suffixes, hb, ih (h.mono (Nat.le_succ b))]

theorem suffixed_congr (h : AgreeUpTo b f g) : AgreeUpTo b (suffixed f) (suffixed g) := by
  intro b' hb'
  funext c
  simp only [suffixed, primary_congr h b' hb', suffixes_congr (h.mono hb')]

theorem unary_congr (h : AgreeUpTo b f g) : AgreeUpTo b (unary f) (unary g) := by
  intro b' hb'
  induction b' with
  | zero =>
      funext c
      cases hop : unaryOp? c.token with
      | none => rw [unary_of_none hop, unary_of_none hop, h 0 hb']
      | some op => rw [unary_zero hop, unary_zero hop]
  | succ b' ih =>
      funext c
      cases hop : unaryOp? c.token with
      | none => rw [unary_of_none hop, unary_of_none hop, h (b' + 1) hb']
      | some op => rw [unary_succ hop, unary_succ hop, ih (Nat.le_of_succ_le hb')]

theorem chain_congr {operator? : Token → Option BinaryOp} (h : AgreeUpTo b f g) (e : Expr)
    (c : Cursor) : chain operator? f b e c = chain operator? g b e c := by
  induction b generalizing e c with
  | zero => rw [chain, chain]
  | succ b ih =>
      cases hop : operator? c.token with
      | none => rw [chain_of_none hop, chain_of_none hop]
      | some op =>
          rw [chain_succ hop, chain_succ hop, h b (Nat.le_succ b)]
          simp only [ih (h.mono (Nat.le_succ b))]

theorem binary_congr {operator? : Token → Option BinaryOp} (h : AgreeUpTo b f g) :
    AgreeUpTo b (binary operator? f) (binary operator? g) := by
  intro b' hb'
  funext c
  simp only [binary, h b' hb', chain_congr (h.mono hb')]

theorem operators_congr (h : AgreeUpTo b f g) : AgreeUpTo b (operators f) (operators g) :=
  binary_congr <| binary_congr <| binary_congr <| binary_congr <| unary_congr <| suffixed_congr h

theorem ternary_congr (h : AgreeUpTo b f g) : AgreeUpTo b (ternary f) (ternary g) := by
  intro b' hb'
  funext c
  simp only [ternary, operators_congr h b' hb', h b' hb']

theorem expression_eq_of_le {bound : Nat} (h : b ≤ bound) : expression bound b = expression b b := by
  induction b using Nat.strongRecOn generalizing bound with
  | _ b ih =>
      cases b with
      | zero => cases bound <;> rfl
      | succ b =>
          obtain ⟨bound, rfl⟩ := Nat.exists_eq_add_one.2 (Nat.lt_of_lt_of_le b.succ_pos h)
          have agree : AgreeUpTo b (expression bound) (expression b) := by
            intro b' hb'
            rw [ih b' (Nat.lt_succ_of_le hb') (by omega), ih b' (Nat.lt_succ_of_le hb') hb']
          funext c
          simp only [expression, ternary_congr agree b (Nat.le_refl b)]

def nested : Rule := fun budget => expression budget budget

theorem nested_zero (c : Cursor) : nested 0 c = .error (.tooDeep c.offset) := rfl

theorem nested_succ (c : Cursor) : nested (b + 1) c = ternary nested b c := by
  have agree : AgreeUpTo b (expression b) nested := fun b' hb' => expression_eq_of_le hb'
  rw [← ternary_congr agree b (Nat.le_refl b)]
  rfl

end TemplateExpr.Rule
