import Mathlib.Tactic.Ring
import TemplateExpr.Proofs.Grammar.Reading

namespace TemplateExpr

mutual

def Expr.height : Expr → Nat
  | .literal _ _ => 1
  | .name _ _ => 1
  | .member _ e _ => e.height + 1
  | .index _ e k => max e.height k.height + 1
  | .unary _ _ e => e.height + 1
  | .binary _ _ l r => max l.height r.height + 1
  | .ternary _ p yes no => max p.height (max yes.height no.height) + 1
  | .array _ items => Expr.itemsHeight items + 1
  | .call _ _ => 1

def Expr.itemsHeight : List Expr → Nat
  | [] => 0
  | e :: es => max e.height (Expr.itemsHeight es)

end

namespace Grammar

def maxHeight (limit : Nat) : Nat :=
  5 * limit * (limit - 1) / 2 + 2 * limit - 1

theorem maxHeight_succ {n : Nat} (h : 0 < n) : maxHeight (n + 1) = maxHeight n + 5 * n + 2 := by
  obtain ⟨n, rfl⟩ := Nat.exists_eq_add_one.2 h
  have hsq : 5 * (n + 1 + 1) * (n + 1 + 1 - 1) = 5 * (n + 1) * (n + 1 - 1) + 2 * (5 * (n + 1)) := by
    simp only [Nat.add_sub_cancel]
    ring
  rw [maxHeight, maxHeight, hsq, Nat.add_mul_div_left _ _ (by decide)]
  omega

theorem le_maxHeight_succ (n : Nat) : maxHeight n + 5 * n + 1 ≤ maxHeight (n + 1) := by
  rcases Nat.eq_zero_or_pos n with rfl | h
  · decide
  · rw [maxHeight_succ h]
    omega

theorem maxHeight_mono {n m : Nat} (h : n ≤ m) : maxHeight n ≤ maxHeight m := by
  induction h with
  | refl => exact Nat.le_refl _
  | step _ ih => exact Nat.le_trans ih (Nat.le_trans (by omega) (le_maxHeight_succ _))

-- The bounds that the induction carries: a chain or a run of suffixes is no longer than its demand,
-- and the height grows by the demand once more with each looser kind of operator.
def WithinHeight (n h : Nat) : Category → Prop
  | .expression => 0 < n ∧ h ≤ maxHeight n
  | .chain p k => k ≤ n ∧ h ≤ 1 + maxHeight n + (6 - p.tightness) * n + k
  | .unary => h ≤ 1 + maxHeight n + n
  | .suffixed k => k ≤ n ∧ h ≤ 1 + maxHeight n + k
  | .primary => h ≤ 1 + maxHeight n
  | .arrayTail _ => h ≤ 1 + maxHeight n

variable {n m l k h x y : Nat}

theorem WithinHeight.ofOperand {p : Precedence} {c : Category} (hc : Operand p c)
    (hw : WithinHeight n h c) : h ≤ 1 + maxHeight n + (6 - p.tightness) * n := by
  cases hc with
  | multiplicative =>
      simp only [WithinHeight] at hw
      simpa [Precedence.tightness] using hw
  | _ k =>
      simp only [WithinHeight, Precedence.tightness] at hw ⊢
      omega

theorem WithinHeight.plain (hw : WithinHeight n h (.chain .equality k)) :
    WithinHeight (n + 1) h .expression := by
  simp only [WithinHeight, Precedence.tightness] at hw ⊢
  have := le_maxHeight_succ n
  omega

theorem WithinHeight.ternary (hp : WithinHeight n h (.chain .equality k))
    (hy : WithinHeight m x .expression) (hn : WithinHeight l y .expression) :
    WithinHeight (max n (max m l) + 1) (max h (max x y) + 1) .expression := by
  simp only [WithinHeight, Precedence.tightness] at hp hy hn ⊢
  have hpos : 0 < max n (max m l) := by omega
  have hsucc := maxHeight_succ hpos
  have hmn : maxHeight n ≤ maxHeight (max n (max m l)) := maxHeight_mono (by omega)
  have hmm : maxHeight m ≤ maxHeight (max n (max m l)) := maxHeight_mono (by omega)
  have hml : maxHeight l ≤ maxHeight (max n (max m l)) := maxHeight_mono (by omega)
  omega

theorem WithinHeight.single {p : Precedence} {c : Category} (hc : Operand p c)
    (hw : WithinHeight n h c) : WithinHeight n h (.chain p 0) :=
  ⟨Nat.zero_le n, hw.ofOperand hc⟩

theorem WithinHeight.operator {p : Precedence} {c : Category} (hx : WithinHeight n x (.chain p k))
    (hc : Operand p c) (hy : WithinHeight m y c) :
    WithinHeight (max n (k + 1 + m)) (max x y + 1) (.chain p (k + 1)) := by
  have hy := hy.ofOperand hc
  simp only [WithinHeight] at hx ⊢
  have hmn : maxHeight n ≤ maxHeight (max n (k + 1 + m)) := maxHeight_mono (by omega)
  have hmm : maxHeight m ≤ maxHeight (max n (k + 1 + m)) := maxHeight_mono (by omega)
  have hrn : (6 - p.tightness) * n ≤ (6 - p.tightness) * max n (k + 1 + m) :=
    Nat.mul_le_mul_left _ (by omega)
  have hrm : (6 - p.tightness) * m ≤ (6 - p.tightness) * max n (k + 1 + m) :=
    Nat.mul_le_mul_left _ (by omega)
  omega

theorem WithinHeight.unary (hw : WithinHeight n h .unary) :
    WithinHeight (n + 1) (h + 1) .unary := by
  simp only [WithinHeight] at hw ⊢
  have : maxHeight n ≤ maxHeight (n + 1) := maxHeight_mono (Nat.le_succ n)
  omega

theorem WithinHeight.suffix (hx : WithinHeight n x (.suffixed k)) (hy : y ≤ maxHeight m) :
    WithinHeight (max n (k + 1 + m)) (max x y + 1) (.suffixed (k + 1)) := by
  simp only [WithinHeight] at hx ⊢
  have hmn : maxHeight n ≤ maxHeight (max n (k + 1 + m)) := maxHeight_mono (by omega)
  have hmm : maxHeight m ≤ maxHeight (max n (k + 1 + m)) := maxHeight_mono (by omega)
  omega

theorem Derives.withinHeight {c : Category} {ts : List Located} {e : Expr}
    (hd : Derives c ts e n) : WithinHeight n e.height c := by
  induction hd with
  | plain _ ih => exact ih.plain
  | ternary a b _ _ _ ihp ihy ihn =>
      rw [Expr.height]
      exact ihp.ternary ihy ihn
  | single hc _ ih => exact ih.single hc
  | operator op a _ _ hc _ ihx ihy =>
      rw [Expr.height]
      exact ihx.operator hc ihy
  | suffixed _ ih =>
      simp only [WithinHeight] at ih ⊢
      omega
  | unary op o _ ih =>
      rw [Expr.height]
      exact ih.unary
  | primary _ ih => exact ⟨Nat.zero_le _, ih⟩
  | member a _ _ ih =>
      have := ih.suffix (y := 0) (m := 0) (Nat.zero_le _)
      rwa [Nat.max_zero] at this
  | index a b _ _ ih ihk =>
      rw [Expr.height]
      exact ih.suffix ihk.2
  | call a b _ =>
      rw [Expr.height]
      exact ⟨Nat.le_max_right _ _, by omega⟩
  | literal o _ =>
      rw [Expr.height]
      exact Nat.le_add_right 1 _
  | name o s =>
      rw [Expr.height]
      exact Nat.le_add_right 1 _
  | parens a b _ ih =>
      simp only [WithinHeight] at ih ⊢
      omega
  | array o _ ih => exact ih
  | close o b =>
      rw [Expr.height, Expr.itemsHeight]
      exact Nat.le_add_right 1 _
  | last o b _ ih =>
      simp only [WithinHeight, Expr.height, Expr.itemsHeight] at ih ⊢
      omega
  | @item ts us e es n m o a _ _ ih ihs =>
      simp only [WithinHeight, Expr.height, Expr.itemsHeight] at ih ihs ⊢
      have hmn : maxHeight n ≤ maxHeight (max n m) := maxHeight_mono (by omega)
      have hmm : maxHeight m ≤ maxHeight (max n m) := maxHeight_mono (by omega)
      omega

theorem height_le_of_parse {limit : Nat} {source : String} {e : Expr}
    (hp : Expr.parse limit source = .ok e) : e.height ≤ maxHeight limit := by
  obtain ⟨ts, _, ht⟩ := bind_eq_ok.1 hp
  obtain ⟨n, hn, hd⟩ := derives_of_ofTokens ht
  exact Nat.le_trans hd.withinHeight.2 (maxHeight_mono hn)

end Grammar

end TemplateExpr
