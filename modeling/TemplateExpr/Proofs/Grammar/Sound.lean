import TemplateExpr.Outcome
import TemplateExpr.Proofs.Grammar.Derivation

namespace TemplateExpr.Grammar

-- Between two positions stands a phrase of one of the categories, within the budget.
def Covers (P : Category → Prop) (budget : Nat) (c : Cursor) (e : Expr) (c' : Cursor) : Prop :=
  ∃ cat ts n, P cat ∧ c.after = ts ++ c'.after ∧ n ≤ budget ∧ Derives cat ts e n

def Sound (r : Rule) (P : Category → Prop) : Prop :=
  ∀ budget c e c', r budget c = .ok (e, c') → Covers P budget c e c'

variable {nested : Rule}

theorem items_sound (h : Sound nested (· = .expression)) (o budget left : Nat) {c c' : Cursor}
    {es : List Expr} (he : Rule.items nested budget left c = .ok (es, c')) :
    ∃ ts n, c.after = ts ++ c'.after ∧ n ≤ budget ∧
      Derives (.arrayTail o) ts (.array o es) n := by
  induction left generalizing c es with
  | zero => simp [Rule.items] at he
  | succ left ih =>
      rw [Rule.items] at he
      split at he
      · rename_i ht
        cases he
        refine ⟨[⟨.symbol .closeBracket, c.offset⟩], 0, ?_, Nat.zero_le _, .close o _⟩
        rw [← ht]
        exact Cursor.after_eq_cons (by simp [ht])
      · obtain ⟨⟨e, c₁⟩, hn, he⟩ := bind_eq_ok.1 he
        obtain ⟨_, ts, n, rfl, hts, hle, hd⟩ := h _ _ _ _ hn
        dsimp only at he
        split at he
        · rename_i ht
          obtain ⟨⟨es', c₂⟩, hi, he⟩ := bind_eq_ok.1 he
          cases he
          obtain ⟨us, m, hus, hle', hd'⟩ := ih hi
          refine ⟨_, _, ?_, Nat.max_le.2 ⟨hle, hle'⟩, .item o c₁.offset hd hd'⟩
          rw [hts, Cursor.after_eq_cons (c := c₁) (by simp [ht]), ht, hus]
          simp
        · obtain ⟨c₂, hx, he⟩ := bind_eq_ok.1 he
          obtain ⟨ht, rfl⟩ := Cursor.expect_eq_ok.1 hx
          cases he
          refine ⟨_, n, ?_, hle, .last o c₁.offset hd⟩
          rw [hts, Cursor.after_eq_cons (c := c₁) (by simp [ht]), ht]
          simp

theorem primary_sound (h : Sound nested (· = .expression)) :
    Sound (Rule.primary nested) (· = .primary) := by
  intro budget c e c' he
  have one : ∀ {t : Token} {x : Expr}, c.token = t → t ≠ .stop →
      Derives .primary [⟨t, c.offset⟩] x 0 → c' = c.advance → e = x →
      Covers (· = .primary) budget c e c' := by
    rintro t x rfl hne hd rfl rfl
    exact ⟨_, _, 0, rfl, Cursor.after_eq_cons hne, Nat.zero_le _, hd⟩
  unfold Rule.primary at he
  split at he
  · rename_i x ht
    cases he
    exact one ht (by simp) (.literal _ rfl) rfl rfl
  · rename_i s ht
    cases he
    exact one ht (by simp) (.literal _ rfl) rfl rfl
  · rename_i w ht
    cases he
    exact one ht (by simp) (.literal _ rfl) rfl rfl
  · rename_i s ht
    cases he
    exact one ht (by simp) (.name _ s) rfl rfl
  · rename_i ht
    obtain ⟨⟨x, c₁⟩, hn, he⟩ := bind_eq_ok.1 he
    obtain ⟨c₂, hx, he⟩ := bind_eq_ok.1 he
    obtain ⟨ht₁, rfl⟩ := Cursor.expect_eq_ok.1 hx
    cases he
    obtain ⟨_, ts, n, rfl, hts, hle, hd⟩ := h _ _ _ _ hn
    refine ⟨_, _, n, rfl, ?_, hle, .parens c.offset c₁.offset hd⟩
    rw [Cursor.after_eq_cons (c := c) (by simp [ht]), ht, hts,
      Cursor.after_eq_cons (c := c₁) (by simp [ht₁]), ht₁]
    simp
  · rename_i ht
    obtain ⟨⟨es, c₁⟩, hi, he⟩ := bind_eq_ok.1 he
    cases he
    obtain ⟨ts, n, hts, hle, hd⟩ := items_sound h c.offset budget _ hi
    refine ⟨_, _, n, rfl, ?_, hle, .array c.offset hd⟩
    rw [Cursor.after_eq_cons (c := c) (by simp [ht]), ht, hts]
    simp
  · cases he

theorem property_sound {c c' : Cursor} {p : String} (h : Rule.property c = .ok (p, c')) :
    ∃ t, t.token.propertyName? = some p ∧ c.after = t :: c'.after := by
  unfold Rule.property at h
  split at h
  · rename_i ht
    cases h
    exact ⟨_, by rw [ht]; rfl, Cursor.after_eq_cons (by simp [ht])⟩
  · rename_i ht
    cases h
    exact ⟨_, by rw [ht]; rfl, Cursor.after_eq_cons (by simp [ht])⟩
  · cases h

def NameForm (o : Nat) (s : String) (ts : List Located) (n : Nat) : Category → Prop
  | .expression => ∃ m, n = m + 1 ∧ Callee o s ts m
  | .chain _ k => k = 0 ∧ Callee o s ts n
  | .unary => Callee o s ts n
  | .suffixed k => k = 0 ∧ Callee o s ts n
  | .primary => Callee o s ts n
  | .arrayTail _ => False

theorem Derives.nameForm {cat : Category} {ts : List Located} {e : Expr} {n o : Nat} {s : String}
    (h : Derives cat ts e n) (he : e = .name o s) : NameForm o s ts n cat := by
  induction h with
  | plain _ ih => exact ⟨_, rfl, (ih he).2⟩
  | single hc _ ih =>
      have := ih he
      cases hc with
      | multiplicative => exact ⟨rfl, this⟩
      | _ => exact ⟨rfl, this.2⟩
  | suffixed _ ih => exact (ih he).2
  | primary _ ih => exact ⟨rfl, ih he⟩
  | name o' s' =>
      cases he
      exact .bare
  | parens a b _ ih =>
      obtain ⟨m, rfl, hc⟩ := ih he
      exact .parens a b hc
  | array _ _ ih => exact (ih he).elim
  | _ => simp at he

theorem suffixes_sound (h : Sound nested (· = .expression)) {budget total k n : Nat}
    {ts : List Located} {e e' : Expr} {c c' : Cursor} (hd : Derives (.suffixed k) ts e n)
    (hn : n ≤ total) (hk : k + budget = total)
    (he : Rule.suffixes nested budget e c = .ok (e', c')) :
    ∃ k' us m, c.after = us ++ c'.after ∧ m ≤ total ∧ Derives (.suffixed k') (ts ++ us) e' m := by
  induction budget generalizing k n ts e c with
  | zero =>
      rw [Rule.suffixes] at he
      split at he <;> cases he
      exact ⟨k, [], n, rfl, hn, by simpa using hd⟩
  | succ budget ih =>
      -- One suffix more makes the induction hypothesis speak of what follows it.
      have extend : ∀ {x : Expr} {vs : List Located} {m : Nat} {c₁ : Cursor},
          Derives (.suffixed (k + 1)) (ts ++ vs) x m → m ≤ total → c.after = vs ++ c₁.after →
          Rule.suffixes nested budget x c₁ = .ok (e', c') →
          ∃ k' us m, c.after = us ++ c'.after ∧ m ≤ total ∧
            Derives (.suffixed k') (ts ++ us) e' m := by
        intro x vs m c₁ hx hm hvs hr
        obtain ⟨k', us, m', hus, hm', hd'⟩ := ih hx hm (by omega) hr
        exact ⟨k', vs ++ us, m', by rw [hvs, hus, List.append_assoc], hm', by
          rwa [← List.append_assoc]⟩
      rw [Rule.suffixes] at he
      split at he
      · cases he
        exact ⟨k, [], n, rfl, hn, by simpa using hd⟩
      · cases he
      · rename_i ht
        have ht := Rule.Suffix.of_eq_property.1 ht
        obtain ⟨⟨p, c₁⟩, hp, he⟩ := bind_eq_ok.1 he
        obtain ⟨t, hname, htok⟩ := property_sound hp
        refine extend (.member c.offset hd hname) (by omega) ?_ he
        rw [Cursor.after_eq_cons (c := c) (by simp [ht]), ht, htok]
        rfl
      · rename_i ht
        have ht := Rule.Suffix.of_eq_index.1 ht
        obtain ⟨⟨key, c₁⟩, hkey, he⟩ := bind_eq_ok.1 he
        obtain ⟨c₂, hx, he⟩ := bind_eq_ok.1 he
        obtain ⟨ht₁, rfl⟩ := Cursor.expect_eq_ok.1 hx
        obtain ⟨_, us, m, rfl, hus, hm, hdk⟩ := h _ _ _ _ hkey
        refine extend (.index c.offset c₁.offset hd hdk) (by omega) ?_ he
        rw [Cursor.after_eq_cons (c := c) (by simp [ht]), ht, hus,
          Cursor.after_eq_cons (c := c₁) (by simp [ht₁]), ht₁]
        simp
      · rename_i o s hs
        obtain ⟨ht, rfl⟩ := Rule.Suffix.of_eq_call.1 hs
        obtain ⟨c₂, hx, he⟩ := bind_eq_ok.1 he
        obtain ⟨ht₁, rfl⟩ := Cursor.expect_eq_ok.1 hx
        obtain ⟨rfl, hcallee⟩ := hd.nameForm rfl
        refine extend (.call c.offset c.advance.offset hcallee) (by omega) ?_ he
        rw [Cursor.after_eq_cons (c := c) (by simp [ht]), ht,
          Cursor.after_eq_cons (c := c.advance) (by simp [ht₁]), ht₁]
        rfl

theorem suffixed_sound (h : Sound nested (· = .expression)) :
    Sound (Rule.suffixed nested) (∃ k, · = .suffixed k) := by
  intro budget c e c' he
  obtain ⟨⟨x, c₁⟩, hp, he⟩ := bind_eq_ok.1 he
  obtain ⟨_, ts, n, rfl, hts, hn, hd⟩ := primary_sound h _ _ _ _ hp
  obtain ⟨k, us, m, hus, hm, hd'⟩ := suffixes_sound h (.primary hd) hn (Nat.zero_add budget) he
  exact ⟨_, ts ++ us, m, ⟨k, rfl⟩, by rw [hts, hus, List.append_assoc], hm, hd'⟩

theorem unary_sound {operand : Rule} (h : Sound operand (∃ k, · = .suffixed k)) :
    Sound (Rule.unary operand) (Operand .multiplicative) := by
  intro budget
  have plain : ∀ {c : Cursor} {e : Expr} {c' : Cursor} {budget : Nat},
      operand budget c = .ok (e, c') → Covers (Operand .multiplicative) budget c e c' := by
    intro c e c' budget he
    obtain ⟨_, ts, n, ⟨k, rfl⟩, hts, hn, hd⟩ := h _ _ _ _ he
    exact ⟨.unary, ts, n, .multiplicative, hts, hn, .suffixed hd⟩
  induction budget with
  | zero =>
      intro c e c' he
      cases hop : Rule.unaryOp? c.token with
      | none => exact plain (by rwa [Rule.unary_of_none hop] at he)
      | some op => simp [Rule.unary_zero hop] at he
  | succ budget ih =>
      intro c e c' he
      cases hop : Rule.unaryOp? c.token with
      | none => exact plain (by rwa [Rule.unary_of_none hop] at he)
      | some op =>
          rw [Rule.unary_succ hop] at he
          obtain ⟨⟨x, c₁⟩, hx, he⟩ := bind_eq_ok.1 he
          cases he
          obtain ⟨_, ts, n, ⟨⟩, hts, hn, hd⟩ := ih _ _ _ hx
          have ht := unaryOp?_eq_some.1 hop
          refine ⟨.unary, _, n + 1, .multiplicative, ?_, by omega, .unary op c.offset hd⟩
          rw [Cursor.after_eq_cons (c := c) (by simp [ht]), ht, hts]
          rfl

theorem chain_sound {p : Precedence} {operand : Rule} (h : Sound operand (Operand p))
    {budget total k n : Nat} {ts : List Located} {e e' : Expr} {c c' : Cursor}
    (hd : Derives (.chain p k) ts e n) (hn : n ≤ total) (hk : k + budget = total)
    (he : Rule.chain p.operator? operand budget e c = .ok (e', c')) :
    ∃ k' us m, c.after = us ++ c'.after ∧ m ≤ total ∧ Derives (.chain p k') (ts ++ us) e' m := by
  have stop : ∀ {budget k n : Nat} {ts : List Located} {e : Expr} {c : Cursor},
      Derives (.chain p k) ts e n → n ≤ total → p.operator? c.token = none →
      Rule.chain p.operator? operand budget e c = .ok (e', c') →
      ∃ k' us m, c.after = us ++ c'.after ∧ m ≤ total ∧
        Derives (.chain p k') (ts ++ us) e' m := by
    intro budget k n ts e c hd hn hop he
    rw [Rule.chain_of_none hop] at he
    cases he
    exact ⟨k, [], n, rfl, hn, by simpa using hd⟩
  induction budget generalizing k n ts e c with
  | zero =>
      cases hop : p.operator? c.token with
      | none => exact stop hd hn hop he
      | some op => simp [Rule.chain_zero hop] at he
  | succ budget ih =>
      cases hop : p.operator? c.token with
      | none => exact stop hd hn hop he
      | some op =>
          rw [Rule.chain_succ hop] at he
          obtain ⟨⟨y, c₁⟩, hy, he⟩ := bind_eq_ok.1 he
          obtain ⟨cat, us, m, hcat, hus, hm, hdy⟩ := h _ _ _ _ hy
          obtain ⟨ht, hp⟩ := Precedence.operator?_eq_some.1 hop
          have hd' := Derives.operator op c.offset hp hd hcat hdy
          obtain ⟨k', vs, l, hvs, hl, hd''⟩ := ih hd' (by omega) (by omega) he
          refine ⟨k', ⟨.symbol op.symbol, c.offset⟩ :: (us ++ vs), l, ?_, hl, by simpa using hd''⟩
          rw [Cursor.after_eq_cons (c := c) (by simp [ht]), ht, hus, hvs]
          simp

theorem binary_sound {p : Precedence} {operand : Rule} (h : Sound operand (Operand p)) :
    Sound (Rule.binary p.operator? operand) (∃ k, · = .chain p k) := by
  intro budget c e c' he
  obtain ⟨⟨x, c₁⟩, hx, he⟩ := bind_eq_ok.1 he
  obtain ⟨cat, ts, n, hcat, hts, hn, hd⟩ := h _ _ _ _ hx
  obtain ⟨k, us, m, hus, hm, hd'⟩ :=
    chain_sound h (.single hcat hd) hn (Nat.zero_add budget) he
  exact ⟨_, ts ++ us, m, ⟨k, rfl⟩, by rw [hts, hus, List.append_assoc], hm, hd'⟩

theorem Sound.mono {r : Rule} {P Q : Category → Prop} (h : Sound r P) (hPQ : ∀ cat, P cat → Q cat) :
    Sound r Q := by
  intro budget c e c' he
  obtain ⟨cat, ts, n, hcat, hd⟩ := h _ _ _ _ he
  exact ⟨cat, ts, n, hPQ cat hcat, hd⟩

theorem operators_sound (h : Sound nested (· = .expression)) :
    Sound (Rule.operators nested) (∃ k, · = .chain .equality k) := by
  have hm := binary_sound (p := .multiplicative) (unary_sound (suffixed_sound h))
  have ha := binary_sound (p := .additive) (hm.mono (by rintro _ ⟨k, rfl⟩; exact .additive k))
  have hr := binary_sound (p := .relational) (ha.mono (by rintro _ ⟨k, rfl⟩; exact .relational k))
  exact binary_sound (p := .equality) (hr.mono (by rintro _ ⟨k, rfl⟩; exact .equality k))

theorem ternary_sound (h : Sound nested (· = .expression)) {budget : Nat} {c c' : Cursor} {e : Expr}
    (he : Rule.ternary nested budget c = .ok (e, c')) :
    Covers (· = .expression) (budget + 1) c e c' := by
  obtain ⟨⟨p, c₁⟩, hp, he⟩ := bind_eq_ok.1 he
  obtain ⟨_, ts, n, ⟨k, rfl⟩, hts, hn, hdp⟩ := operators_sound h _ _ _ _ hp
  dsimp only at he
  split at he
  · rename_i ht
    obtain ⟨⟨yes, c₂⟩, hyes, he⟩ := bind_eq_ok.1 he
    obtain ⟨c₃, hx, he⟩ := bind_eq_ok.1 he
    obtain ⟨⟨no, c₄⟩, hno, he⟩ := bind_eq_ok.1 he
    cases he
    obtain ⟨ht₂, rfl⟩ := Cursor.expect_eq_ok.1 hx
    obtain ⟨_, us, m, rfl, hus, hm, hdy⟩ := h _ _ _ _ hyes
    obtain ⟨_, vs, l, rfl, hvs, hl, hdn⟩ := h _ _ _ _ hno
    refine ⟨_, _, _, rfl, ?_, ?_, .ternary c₁.offset c₂.offset hdp hdy hdn⟩
    · rw [hts, Cursor.after_eq_cons (c := c₁) (by simp [ht]), ht, hus,
        Cursor.after_eq_cons (c := c₂) (by simp [ht₂]), ht₂, hvs]
      simp
    · omega
  · cases he
    exact ⟨_, ts, n + 1, rfl, hts, by omega, .plain hdp⟩

theorem expression_sound (bound : Nat) : Sound (Rule.expression bound) (· = .expression) := by
  induction bound with
  | zero =>
      intro budget c e c' he
      cases budget <;> cases he
  | succ bound ih =>
      intro budget c e c' he
      cases budget with
      | zero => cases he
      | succ budget => exact ternary_sound ih he

end TemplateExpr.Grammar
