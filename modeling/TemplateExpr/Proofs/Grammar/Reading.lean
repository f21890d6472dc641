import TemplateExpr.Proofs.Grammar.Complete
import TemplateExpr.Proofs.Grammar.Sound

namespace TemplateExpr.Grammar

def upToStop (ts : List Located) : List Located :=
  ts.takeWhile (·.token ≠ .stop)

theorem upToStop_append {ts rest : List Located} (h : ∀ t ∈ ts, t.token ≠ .stop)
    (hrest : nextToken rest = .stop) : upToStop (ts ++ rest) = ts := by
  have hts : ∀ t ∈ ts, (decide (t.token ≠ .stop)) = true := fun t ht => decide_eq_true (h t ht)
  rw [upToStop, List.takeWhile_append_of_pos hts]
  cases rest with
  | nil => simp
  | cons t rest =>
      rw [nextToken_cons] at hrest
      simp [hrest]

theorem exists_append_upToStop (ts : List Located) :
    ∃ rest, ts = upToStop ts ++ rest ∧ nextToken rest = .stop := by
  induction ts with
  | nil => exact ⟨[], rfl, rfl⟩
  | cons t ts ih =>
      by_cases ht : t.token = .stop
      · exact ⟨t :: ts, by simp [upToStop, ht], ht⟩
      · obtain ⟨rest, hts, hrest⟩ := ih
        refine ⟨rest, ?_, hrest⟩
        rw [upToStop, List.takeWhile_cons_of_pos (by simpa using ht), List.cons_append]
        exact congrArg (t :: ·) hts

theorem nested_settles {ts : List Located} {e : Expr} {n : Nat} (h : Derives .expression ts e n)
    (limit : Nat) {rest : List Located} (hrest : nextToken rest = .stop) :
    Settles n limit (Rule.expression limit limit (.ofTokens (ts ++ rest)))
      (.ok (e, ⟨ts.reverse, rest⟩)) := by
  have hread := h.reads limit [] rest (by simp [hrest, Token.tightness])
  rwa [List.append_nil] at hread

theorem Derives.unique {ts : List Located} {x y : Expr} {n m : Nat}
    (hx : Derives .expression ts x n) (hy : Derives .expression ts y m) : x = y ∧ n = m := by
  have hstop : nextToken [] = .stop := rfl
  constructor
  · have h₁ := (nested_settles hx (max n m) hstop).1 (Nat.le_max_left n m)
    have h₂ := (nested_settles hy (max n m) hstop).1 (Nat.le_max_right n m)
    simp only [h₁, Except.ok.injEq, Prod.mk.injEq] at h₂
    exact h₂.1
  · -- With a limit between two demands one derivation is read and the other is not.
    have le_of : ∀ {x y : Expr} {n m : Nat}, Derives .expression ts x n →
        Derives .expression ts y m → n ≤ m := by
      intro x y n m hx hy
      refine Nat.le_of_not_lt fun hlt => ?_
      obtain ⟨o, ho⟩ := (nested_settles hx m hstop).2 hlt
      rw [(nested_settles hy m hstop).1 (Nat.le_refl m)] at ho
      cases ho
    exact Nat.le_antisymm (le_of hx hy) (le_of hy hx)

theorem derives_of_ofTokens {limit : Nat} {ts : List Located} {e : Expr}
    (h : Expr.ofTokens limit ts = .ok e) :
    ∃ n ≤ limit, Derives .expression (upToStop ts) e n := by
  unfold Expr.ofTokens at h
  dsimp only at h
  split at h
  · cases h
  · split at h
    · cases h
    · rename_i x rest hx
      split at h
      · rename_i hstop
        cases h
        obtain ⟨_, us, n, rfl, hus, hn, hd⟩ := expression_sound limit _ _ _ _ hx
        refine ⟨n, hn, ?_⟩
        have hus : ts = us ++ rest.after := hus
        have hnext : nextToken rest.after = .stop := by
          rw [← hstop]
          exact (Cursor.token_mk rest.before rest.after).symm
        rwa [hus, upToStop_append hd.token_ne_stop hnext]
      · cases h

theorem ofTokens_of_derives {limit n : Nat} {ts : List Located} {e : Expr} (hn : n ≤ limit)
    (h : Derives .expression (upToStop ts) e n) : Expr.ofTokens limit ts = .ok e := by
  obtain ⟨rest, hts, hrest⟩ := exists_append_upToStop ts
  have hread := (nested_settles h limit hrest).1 hn
  rw [← hts] at hread
  have hfirst : (Cursor.ofTokens ts).token ≠ .stop := by
    obtain ⟨t, us, ht⟩ := List.exists_cons_of_ne_nil h.ne_nil
    have htok := h.token_ne_stop t (by simp [ht])
    rw [hts, ht]
    exact htok
  have hlast : Cursor.token ⟨(upToStop ts).reverse, rest⟩ = .stop := by
    rw [Cursor.token_mk, hrest]
  unfold Expr.ofTokens
  simp only [if_neg hfirst, hread, hlast, if_true]

end TemplateExpr.Grammar
