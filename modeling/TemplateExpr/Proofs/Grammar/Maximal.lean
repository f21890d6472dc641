import TemplateExpr.Proofs.Grammar.Reading

namespace TemplateExpr

theorem Precedence.tightness_ne {p : Precedence} {t : Token} (h : p.operator? t = none) :
    t.tightness ≠ p.tightness := by
  cases t with
  | symbol s => cases s <;> cases p <;> first | decide | cases h
  | _ => cases p <;> simp [Token.tightness, Precedence.tightness]

theorem Suffix.tightness_lt {e : Expr} {t : Token} (h : Rule.Suffix.of e t = .absent) :
    t.tightness < 6 := by
  cases t with
  | symbol s =>
      cases s <;> first | decide | (cases e <;> cases h)
  | _ => simp [Token.tightness]

theorem Token.tightness_eq_one {t : Token} : t.tightness = 1 ↔ t = .symbol .question := by
  cases t with
  | symbol s => cases s <;> simp [Token.tightness]
  | _ => simp [Token.tightness]

theorem Token.tightness_lt (t : Token) : t.tightness < 7 := by
  cases t with
  | symbol s => cases s <;> decide
  | _ => simp [Token.tightness]

namespace Grammar

def Maximal (r : Rule) (level : Nat) : Prop :=
  ∀ budget c e c', r budget c = .ok (e, c') → c'.token.tightness < level

theorem suffixes_maximal {nested : Rule} {budget : Nat} {e e' : Expr} {c c' : Cursor}
    (h : Rule.suffixes nested budget e c = .ok (e', c')) : c'.token.tightness < 6 := by
  induction budget generalizing e c with
  | zero =>
      rw [Rule.suffixes] at h
      split at h <;> cases h
      exact Suffix.tightness_lt ‹_›
  | succ budget ih =>
      rw [Rule.suffixes] at h
      split at h
      · cases h
        exact Suffix.tightness_lt ‹_›
      · cases h
      · obtain ⟨_, _, h⟩ := bind_eq_ok.1 h
        exact ih h
      · obtain ⟨_, _, h⟩ := bind_eq_ok.1 h
        obtain ⟨_, _, h⟩ := bind_eq_ok.1 h
        exact ih h
      · obtain ⟨_, _, h⟩ := bind_eq_ok.1 h
        exact ih h

theorem suffixed_maximal (nested : Rule) : Maximal (Rule.suffixed nested) 6 := by
  intro budget c e c' h
  obtain ⟨_, _, h⟩ := bind_eq_ok.1 h
  exact suffixes_maximal h

theorem unary_maximal {operand : Rule} {level : Nat} (h : Maximal operand level) :
    Maximal (Rule.unary operand) level := by
  intro budget
  induction budget with
  | zero =>
      intro c e c' he
      cases hop : Rule.unaryOp? c.token with
      | none => exact h _ _ _ _ (by rwa [Rule.unary_of_none hop] at he)
      | some op => simp [Rule.unary_zero hop] at he
  | succ budget ih =>
      intro c e c' he
      cases hop : Rule.unaryOp? c.token with
      | none => exact h _ _ _ _ (by rwa [Rule.unary_of_none hop] at he)
      | some op =>
          rw [Rule.unary_succ hop] at he
          obtain ⟨⟨x, c₁⟩, hx, he⟩ := bind_eq_ok.1 he
          cases he
          exact ih _ _ _ hx

theorem chain_maximal {p : Precedence} {operand : Rule} (h : Maximal operand (p.tightness + 1))
    {budget : Nat} {e e' : Expr} {c c' : Cursor} (hc : c.token.tightness < p.tightness + 1)
    (he : Rule.chain p.operator? operand budget e c = .ok (e', c')) :
    c'.token.tightness < p.tightness := by
  induction budget generalizing e c with
  | zero =>
      cases hop : p.operator? c.token with
      | none =>
          rw [Rule.chain_of_none hop] at he
          cases he
          exact Nat.lt_of_le_of_ne (Nat.le_of_lt_succ hc) (Precedence.tightness_ne hop)
      | some op => simp [Rule.chain_zero hop] at he
  | succ budget ih =>
      cases hop : p.operator? c.token with
      | none =>
          rw [Rule.chain_of_none hop] at he
          cases he
          exact Nat.lt_of_le_of_ne (Nat.le_of_lt_succ hc) (Precedence.tightness_ne hop)
      | some op =>
          rw [Rule.chain_succ hop] at he
          obtain ⟨⟨y, c₁⟩, hy, he⟩ := bind_eq_ok.1 he
          exact ih (h _ _ _ _ hy) he

theorem binary_maximal {p : Precedence} {operand : Rule} (h : Maximal operand (p.tightness + 1)) :
    Maximal (Rule.binary p.operator? operand) p.tightness := by
  intro budget c e c' he
  obtain ⟨⟨x, c₁⟩, hx, he⟩ := bind_eq_ok.1 he
  exact chain_maximal h (h _ _ _ _ hx) he

-- The operands of a level are the phrases of the next tighter one, and those of the tightest level
-- are the unary expressions.
theorem operand_induct {motive : Precedence → Rule → Prop}
    (unary : motive .multiplicative (Rule.unary (Rule.suffixed Rule.nested)))
    (looser : ∀ p q, (∀ k, Operand q (.chain p k)) → motive p p.operand → motive q p.rule)
    (p : Precedence) : motive p p.operand := by
  have hm : motive .multiplicative Precedence.multiplicative.operand := unary
  have ha : motive .additive Precedence.additive.operand := looser _ _ .additive hm
  have hr : motive .relational Precedence.relational.operand := looser _ _ .relational ha
  have he : motive .equality Precedence.equality.operand := looser _ _ .equality hr
  cases p <;> assumption

theorem Operand.tightness_succ {p q : Precedence} {k : Nat} (h : Operand q (.chain p k)) :
    q.tightness + 1 = p.tightness := by
  cases h <;> rfl

theorem operand_maximal (p : Precedence) : Maximal p.operand (p.tightness + 1) := by
  induction p using operand_induct with
  | unary => exact unary_maximal (suffixed_maximal Rule.nested)
  | looser p q hpq ih =>
      rw [(hpq 0).tightness_succ]
      exact binary_maximal ih

theorem nested_maximal : Maximal Rule.nested 1 := by
  intro budget
  induction budget with
  | zero => intro c e c' h; cases h
  | succ budget ih =>
      intro c e c' h
      rw [Rule.nested_succ] at h
      obtain ⟨⟨x, c₁⟩, hx, h⟩ := bind_eq_ok.1 h
      have hlt : c₁.token.tightness < 2 := binary_maximal (operand_maximal .equality) _ _ _ _ hx
      dsimp only at h
      split at h
      · obtain ⟨_, _, h⟩ := bind_eq_ok.1 h
        obtain ⟨_, _, h⟩ := bind_eq_ok.1 h
        obtain ⟨⟨no, c₂⟩, hno, h⟩ := bind_eq_ok.1 h
        cases h
        exact ih _ _ _ hno
      · rename_i ht
        cases h
        have hne : c'.token.tightness ≠ 1 := fun h => ht (Token.tightness_eq_one.1 h)
        omega

theorem nested_sound : Sound Rule.nested (· = .expression) :=
  fun budget => expression_sound budget budget

theorem operand_sound (p : Precedence) : Sound p.operand (Operand p) := by
  induction p using operand_induct with
  | unary => exact unary_sound (suffixed_sound nested_sound)
  | looser p q hpq ih => exact (binary_sound ih).mono (by rintro _ ⟨k, rfl⟩; exact hpq k)

-- The computation reads these tokens to this result wherever they stand before this next token.
def Passes {α : Type} (f : Nat → Cursor → Except Failure (α × Cursor)) (budget : Nat)
    (ts : List Located) (a : α) (next : Token) : Prop :=
  ∀ b ≥ budget, ∀ before rest, nextToken rest = next →
    f b ⟨before, ts ++ rest⟩ = .ok (a, ⟨ts.reverse ++ before, rest⟩)

theorem Reads.passes {r : Rule} {level n budget : Nat} {ts : List Located} {e : Expr} {next : Token}
    (h : Reads r pass level ts e n) (hn : n ≤ budget) (hnext : next.tightness < level) :
    Passes r budget ts e next := by
  intro b hb before rest hrest
  exact (h b before rest (hrest ▸ hnext)).1 (Nat.le_trans hn hb)

def Repeats (r : Rule) (P : Category → Prop) : Prop :=
  ∀ budget c e c', r budget c = .ok (e, c') → ∃ cat ts n, P cat ∧ c.after = ts ++ c'.after ∧
    Derives cat ts e n ∧ n ≤ budget ∧ Passes r budget ts e c'.token

theorem Sound.repeats {r : Rule} {P : Category → Prop} {level : Nat} (h : Sound r P)
    (hm : Maximal r level)
    (hr : ∀ cat ts e n, P cat → Derives cat ts e n → Reads r pass level ts e n) : Repeats r P := by
  intro budget c e c' he
  obtain ⟨cat, ts, n, hcat, hts, hn, hd⟩ := h _ _ _ _ he
  exact ⟨cat, ts, n, hcat, hts, hd, hn, (hr _ _ _ _ hcat hd).passes hn (hm _ _ _ _ he)⟩

theorem nested_repeats : Repeats Rule.nested (· = .expression) :=
  nested_sound.repeats nested_maximal (by rintro _ ts e n rfl hd; exact hd.reads)

theorem operand_repeats (p : Precedence) : Repeats p.operand (Operand p) :=
  (operand_sound p).repeats (operand_maximal p) fun _ _ _ _ hcat hd => .ofOperand hcat hd.reads

theorem rule_repeats (p : Precedence) : Repeats p.rule (∃ k, · = .chain p k) :=
  (binary_sound (operand_sound p)).repeats (binary_maximal (operand_maximal p))
    (by rintro _ ts e n ⟨k, rfl⟩ hd; exact .ofChain hd.reads)

theorem primary_maximal (nested : Rule) : Maximal (Rule.primary nested) 7 :=
  fun _ _ _ c' _ => c'.token.tightness_lt

theorem primary_repeats : Repeats (Rule.primary Rule.nested) (· = .primary) :=
  (primary_sound nested_sound).repeats (primary_maximal _) (by rintro _ ts e n rfl hd; exact hd.reads)

end Grammar

end TemplateExpr
