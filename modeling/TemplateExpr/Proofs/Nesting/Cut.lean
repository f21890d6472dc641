import TemplateExpr.Evaluator
import TemplateExpr.Proofs.Grammar.Complete

namespace TemplateExpr.Grammar

section

variable {α β : Type}

-- What is read with less budget: the same as with more, or nothing because it was used up.
def CutOf (r v : Except Failure α) : Prop :=
  r = v ∨ TooDeep r

theorem CutOf.refl (r : Except Failure α) : CutOf r r :=
  .inl rfl

theorem CutOf.tooDeep (o : Nat) (v : Except Failure α) : CutOf (.error (.tooDeep o)) v :=
  .inr ⟨o, rfl⟩

theorem CutOf.bind {r v : Except Failure α} {f g : α → Except Failure β} (h : CutOf r v)
    (hf : ∀ a, CutOf (f a) (g a)) : CutOf (r >>= f) (v >>= g) := by
  rcases h with rfl | h
  · cases r with
    | error e => exact .refl (.error e)
    | ok a => exact hf a
  · exact .inr (h.bind f)

end

def OnlyCuts (bound : Nat) (r : Rule) : Prop :=
  ∀ b ≤ bound, ∀ b' ≥ b, ∀ c, CutOf (r b c) (r b' c)

variable {bound b b' : Nat} {f : Rule}

theorem items_cutOf (h : ∀ c, CutOf (f b c) (f b' c)) (left : Nat) (c : Cursor) :
    CutOf (Rule.items f b left c) (Rule.items f b' left c) := by
  induction left generalizing c with
  | zero => exact .refl _
  | succ left ih =>
      rw [Rule.items, Rule.items]
      split
      · exact .refl _
      · refine (h c).bind fun x => ?_
        dsimp only
        split
        · exact (ih _).bind fun y => .refl _
        · exact .refl _

theorem primary_onlyCuts (h : OnlyCuts bound f) : OnlyCuts bound (Rule.primary f) := by
  intro b hb b' hb' c
  have hnested := h b hb b' hb'
  unfold Rule.primary
  split
  case h_5 => exact (hnested _).bind fun x => .refl _
  case h_6 => exact (items_cutOf hnested _ _).bind fun x => .refl _
  all_goals exact .refl _

theorem suffixes_cutOf (h : OnlyCuts bound f) (hb : b ≤ bound) (hb' : b ≤ b') (e : Expr)
    (c : Cursor) : CutOf (Rule.suffixes f b e c) (Rule.suffixes f b' e c) := by
  induction b generalizing b' e c with
  | zero =>
      cases b' with
      | zero => exact .refl _
      | succ b' =>
          rw [Rule.suffixes, Rule.suffixes]
          split
          · exact .refl _
          · exact .refl _
          all_goals exact .tooDeep _ _
  | succ b ih =>
      obtain ⟨b', rfl⟩ := Nat.exists_eq_add_one.2 (Nat.lt_of_lt_of_le b.succ_pos hb')
      have hb := Nat.le_of_succ_le hb
      have hb' := Nat.le_of_succ_le_succ hb'
      rw [Rule.suffixes, Rule.suffixes]
      split
      · exact .refl _
      · exact .refl _
      · exact (CutOf.refl _).bind fun x => ih hb hb' _ _
      · refine (h b hb b' hb' _).bind fun x => (CutOf.refl _).bind fun c => ih hb hb' _ _
      · exact (CutOf.refl _).bind fun c => ih hb hb' _ _

theorem suffixed_onlyCuts (h : OnlyCuts bound f) : OnlyCuts bound (Rule.suffixed f) :=
  fun b hb b' hb' c =>
    (primary_onlyCuts h b hb b' hb' c).bind fun _ => suffixes_cutOf h hb hb' _ _

theorem unary_onlyCuts (h : OnlyCuts bound f) : OnlyCuts bound (Rule.unary f) := by
  intro b hb
  induction b with
  | zero =>
      intro b' hb' c
      cases hop : Rule.unaryOp? c.token with
      | none =>
          rw [Rule.unary_of_none hop, Rule.unary_of_none hop]
          exact h 0 hb b' hb' c
      | some op =>
          rw [Rule.unary_zero hop]
          exact .tooDeep _ _
  | succ b ih =>
      intro b' hb' c
      cases hop : Rule.unaryOp? c.token with
      | none =>
          rw [Rule.unary_of_none hop, Rule.unary_of_none hop]
          exact h (b + 1) hb b' hb' c
      | some op =>
          obtain ⟨b', rfl⟩ := Nat.exists_eq_add_one.2 (Nat.lt_of_lt_of_le b.succ_pos hb')
          rw [Rule.unary_succ hop, Rule.unary_succ hop]
          exact (ih (Nat.le_of_succ_le hb) b' (Nat.le_of_succ_le_succ hb') _).bind fun x => .refl _

theorem chain_cutOf {operator? : Token → Option BinaryOp} (h : OnlyCuts bound f) (hb : b ≤ bound)
    (hb' : b ≤ b') (e : Expr) (c : Cursor) :
    CutOf (Rule.chain operator? f b e c) (Rule.chain operator? f b' e c) := by
  induction b generalizing b' e c with
  | zero =>
      cases hop : operator? c.token with
      | none =>
          rw [Rule.chain_of_none hop, Rule.chain_of_none hop]
          exact .refl _
      | some op =>
          rw [Rule.chain_zero hop]
          exact .tooDeep _ _
  | succ b ih =>
      cases hop : operator? c.token with
      | none =>
          rw [Rule.chain_of_none hop, Rule.chain_of_none hop]
          exact .refl _
      | some op =>
          obtain ⟨b', rfl⟩ := Nat.exists_eq_add_one.2 (Nat.lt_of_lt_of_le b.succ_pos hb')
          have hb := Nat.le_of_succ_le hb
          have hb' := Nat.le_of_succ_le_succ hb'
          rw [Rule.chain_succ hop, Rule.chain_succ hop]
          exact (h b hb b' hb' _).bind fun x => ih hb hb' _ _

theorem binary_onlyCuts {operator? : Token → Option BinaryOp} (h : OnlyCuts bound f) :
    OnlyCuts bound (Rule.binary operator? f) :=
  fun b hb b' hb' c => (h b hb b' hb' c).bind fun _ => chain_cutOf h hb hb' _ _

theorem operators_onlyCuts (h : OnlyCuts bound f) : OnlyCuts bound (Rule.operators f) :=
  binary_onlyCuts <| binary_onlyCuts <| binary_onlyCuts <| binary_onlyCuts <| unary_onlyCuts <|
    suffixed_onlyCuts h

theorem ternary_onlyCuts (h : OnlyCuts bound f) : OnlyCuts bound (Rule.ternary f) := by
  intro b hb b' hb' c
  refine (operators_onlyCuts h b hb b' hb' c).bind fun x => ?_
  dsimp only
  split
  · refine (h b hb b' hb' _).bind fun yes => (CutOf.refl _).bind fun c => ?_
    exact (h b hb b' hb' c).bind fun no => .refl _
  · exact .refl _

theorem nested_onlyCuts (bound : Nat) : OnlyCuts bound Rule.nested := by
  induction bound with
  | zero =>
      intro b hb b' hb' c
      obtain rfl := Nat.le_zero.1 hb
      rw [Rule.nested_zero]
      exact .tooDeep _ _
  | succ bound ih =>
      intro b hb b' hb' c
      cases b with
      | zero =>
          rw [Rule.nested_zero]
          exact .tooDeep _ _
      | succ b =>
          obtain ⟨b', rfl⟩ := Nat.exists_eq_add_one.2 (Nat.lt_of_lt_of_le b.succ_pos hb')
          rw [Rule.nested_succ, Rule.nested_succ]
          exact ternary_onlyCuts ih b (Nat.le_of_succ_le_succ hb) b' (Nat.le_of_succ_le_succ hb') c

variable {d d' : Nat}

theorem ofTokens_eq_or_tooDeep (h : d ≤ d') (ts : List Located) :
    Expr.ofTokens d ts = Expr.ofTokens d' ts ∨ ∃ o, Expr.ofTokens d ts = .error ⟨.tooDeep d, o⟩ := by
  have hcut : CutOf (Rule.expression d d (.ofTokens ts)) (Rule.expression d' d' (.ofTokens ts)) :=
    nested_onlyCuts d d (Nat.le_refl d) d' h _
  unfold Expr.ofTokens
  dsimp only
  split
  · exact .inl rfl
  · rcases hcut with heq | ⟨o, ho⟩
    · rw [← heq]
      cases Rule.expression d d (.ofTokens ts) with
      | ok x => exact .inl rfl
      | error f => cases f with
        | tooDeep o => exact .inr ⟨o, rfl⟩
        | unexpected e found => exact .inl rfl
    · rw [ho]
      exact .inr ⟨o, rfl⟩

theorem ofTokens_mono (h : d ≤ d') {ts : List Located} {x : Expr}
    (hx : Expr.ofTokens d ts = .ok x) : Expr.ofTokens d' ts = .ok x := by
  rcases ofTokens_eq_or_tooDeep h ts with heq | ⟨o, ho⟩
  · rw [← heq, hx]
  · cases hx.symm.trans ho

theorem parse_mono (h : d ≤ d') {source : String} {x : Expr} (hx : Expr.parse d source = .ok x) :
    Expr.parse d' source = .ok x := by
  obtain ⟨ts, hts, hx⟩ := bind_eq_ok.1 hx
  exact bind_eq_ok.2 ⟨ts, hts, ofTokens_mono h hx⟩

theorem evaluate_eq_of_parse {σ : Type} (host : Host σ) (deny : DenyList) (h : d ≤ d')
    {source : String} {x : Expr} (hx : Expr.parse d source = .ok x) :
    (⟨deny, d⟩ : Evaluator).evaluate host source = (⟨deny, d'⟩ : Evaluator).evaluate host source := by
  funext data receiver
  simp only [Evaluator.evaluate, Evaluator.parse, hx, parse_mono h hx]

theorem limit_only_cuts {σ : Type} (host : Host σ) (deny : DenyList) (h : d ≤ d') :
    (∀ ts, Expr.ofTokens d ts = Expr.ofTokens d' ts ∨
      ∃ m, Expr.ofTokens d ts = .error m ∧ m.cause = .tooDeep d ∧
        m.cause.message = "expression nested deeper than " ++ d.repr ++ " levels") ∧
      (∀ ts x, Expr.ofTokens d ts = .ok x → Expr.ofTokens d' ts = .ok x) ∧
      ∀ source x, Expr.parse d source = .ok x → Expr.parse d' source = .ok x ∧
        (⟨deny, d⟩ : Evaluator).evaluate host source =
          (⟨deny, d'⟩ : Evaluator).evaluate host source := by
  refine ⟨fun ts => ?_, fun ts x hx => ofTokens_mono h hx, fun source x hx => ?_⟩
  · rcases ofTokens_eq_or_tooDeep h ts with heq | ⟨o, ho⟩
    · exact .inl heq
    · exact .inr ⟨_, ho, rfl, rfl⟩
  · exact ⟨parse_mono h hx, evaluate_eq_of_parse host deny h hx⟩

theorem limit_only_cuts_of_sum :
    2 ≤ 3 ∧ ∃ x, Expr.parse 2 "a+b" = .ok x ∧ Expr.parse 3 "a+b" = .ok x ∧
      (⟨{}, 2⟩ : Evaluator).evaluate Host.isolated "a+b" =
        (⟨{}, 3⟩ : Evaluator).evaluate Host.isolated "a+b" := by
  have hx : Expr.parse 2 "a+b" =
      .ok (.binary 0 .add (.name 0 "a") (.name 2 "b")) := by with_unfolding_all rfl
  obtain ⟨-, -, haccepted⟩ := limit_only_cuts Host.isolated {} (by decide : 2 ≤ 3)
  exact ⟨by decide, _, hx, haccepted "a+b" _ hx⟩

end TemplateExpr.Grammar
