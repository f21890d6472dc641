import TemplateExpr.Proofs.Walk.Rules

namespace TemplateExpr.Input

variable {α : Type} {i : Input} {s t : Counters} {c : Cursor}

structure Climbed (s t : Counters) : Prop where
  depth : s.depth ≤ t.depth
  pos : s.pos < t.pos

def Offers (i : Input) (offset : Nat) : Prop :=
  (∃ u ∈ i.tokens, u.offset = offset) ∨ i.tokens = [] ∧ offset = 0

inductive Ends (i : Input) (exit : Counters → Counters → Prop) (s : Counters) :
    Except Mistake α → Counters → Prop
  | ok {a t} : t.pos ≤ i.tokens.length → exit s t → i.Ends exit s (.ok a) t
  | error {m t} : t.pos ≤ i.tokens.length → s.depth ≤ t.depth → i.Offers m.offset →
      i.Ends exit s (.error m) t

/-- From every place among the tokens, and at every depth, the walk comes to an end. -/
def Safe (i : Input) (exit : Counters → Counters → Prop) (x : Walk Counters α) : Prop :=
  ∀ s, s.pos ≤ i.tokens.length → ∃ r t, x s = some (r, t) ∧ i.Ends exit s r t

/-- The functions of the parser end at the depth where they began, those that take the links of a
chain possibly deeper, which their callers undo. -/
structure Promises (i : Input) : Prop where
  expression : i.Safe Balanced i.expression
  ternary : i.Safe Balanced i.ternary
  binary : ∀ p, i.Safe Balanced (i.binary p)
  chain : ∀ p, i.Safe Climbed (i.chain p)
  unary : i.Safe Balanced i.unary
  suffixed : i.Safe Balanced i.suffixed
  suffixes : i.Safe Climbed i.suffixes
  primary : i.Safe Balanced i.primary
  items : i.Safe Balanced i.items

theorem At.offers (h : i.At s c) : i.Offers c.offset := by
  by_cases hne : i.tokens = []
  · obtain ⟨before, after⟩ := c
    obtain ⟨hbefore, rfl⟩ := List.append_eq_nil_iff.1 (h.tokens.trans hne)
    rw [List.reverse_eq_nil_iff] at hbefore
    subst hbefore
    exact .inr ⟨hne, rfl⟩
  · exact .inl (h.exists_offset hne)

theorem Follows.safe {x : Walk Counters α} {exit : Counters → Counters → Prop}
    (h : ∀ s c, i.At s c → ∃ Q o, i.Follows x s Q o ∧
      ∀ t, s.depth ≤ t.depth → Q t → exit s t) : i.Safe exit x := by
  intro s hs
  obtain ⟨c, hc⟩ := exists_at hs
  obtain ⟨Q, o, hfollows, hexit⟩ := h s c hc
  cases hfollows with
  | @ok a t r hx hr => exact ⟨_, t, hx, .ok hr.place.pos_le (hexit t hr.depth_le hr.exit)⟩
  | @error m t f hx hf => exact ⟨_, t, hx, .error hf.pos_le hf.depth_le (.inl hf.offset)⟩

theorem FollowsRule.safe {x : Walk Counters Expr} {r : Rule} (h : ∀ b, i.FollowsRule b x r) :
    i.Safe Balanced x :=
  Follows.safe fun s c hc => ⟨_, _, h _ s c hc (Nat.le_refl _), fun _ _ => id⟩

theorem promises (hne : i.tokens ≠ []) : i.Promises := by
  have hexpression := expression_follows hne
  have hoperand (b : Nat) (p : Precedence) := operand_follows hne (hexpression b) p
  refine ⟨FollowsRule.safe hexpression, FollowsRule.safe fun b => ternary_follows hne (hexpression b),
    fun p => FollowsRule.safe fun b => binary_follows hne (hoperand b p), ?_,
    FollowsRule.safe fun b => unary_follows hne (suffixed_follows hne (hexpression b)),
    FollowsRule.safe fun b => suffixed_follows hne (hexpression b), ?_,
    FollowsRule.safe fun b => primary_follows hne (hexpression b), ?_⟩
  · intro p
    exact Follows.safe fun s c hc =>
      ⟨_, _, chain_follows hne (hoperand _ p) hc (Nat.le_refl _), fun _ hd hp => ⟨hd, hp⟩⟩
  · exact Follows.safe fun s c hc =>
      ⟨_, _, suffixes_follows hne (hexpression _) hc (Nat.le_refl _), fun _ hd hp => ⟨hd, hp⟩⟩
  · exact Follows.safe fun s c hc =>
      ⟨_, _, items_follows hne (hexpression _) hc (Nat.le_refl _) (Nat.lt_succ_self _), fun _ _ => id⟩

theorem parse_ends (i : Input) : ∃ t, i.parse .start = some (Expr.ofTokens i.limit i.tokens, t) ∧
    i.Ends Balanced .start (Expr.ofTokens i.limit i.tokens) t := by
  have hc : i.At .start (.ofTokens i.tokens) := ⟨rfl, rfl⟩
  rw [parse, Walk.bind_of_ok hc.peek, Expr.ofTokens]
  by_cases hstop : (Cursor.ofTokens i.tokens).token = .stop
  · rw [if_pos hstop, if_pos hstop, Walk.bind_of_ok hc.offset]
    exact ⟨_, rfl, .error (Nat.zero_le _) (Nat.le_refl _) hc.offers⟩
  · have hne : i.tokens ≠ [] := Cursor.after_ne_nil hstop
    have hfollows : i.Follows i.expression .start _ (Rule.expression i.limit i.limit _) :=
      expression_follows hne i.limit .start _ hc (Nat.le_refl _)
    rw [if_neg hstop, if_neg hstop]
    generalize Rule.expression i.limit i.limit (Cursor.ofTokens i.tokens) = o at hfollows
    cases hfollows with
    | @ok e t r hx hr =>
        obtain ⟨rfl, hplace, -, -, hexit⟩ := hr
        rw [Walk.bind_of_ok hx, Walk.bind_of_ok hplace.peek]
        dsimp only
        by_cases hend : r.2.token = .stop
        · rw [if_pos hend, if_pos hend]
          exact ⟨_, rfl, .ok hplace.pos_le hexit⟩
        · rw [if_neg hend, if_neg hend, hplace.unexpected]
          exact ⟨_, rfl, .error hplace.pos_le (Nat.zero_le _) hplace.offers⟩
    | @error m t f hx hf =>
        obtain ⟨rfl, ho, -, hp⟩ := hf
        rw [Walk.bind_of_error hx]
        exact ⟨_, rfl, .error hp (Nat.zero_le _) (.inl ho)⟩

theorem offers_of_ofTokens {m : Mistake} (h : Expr.ofTokens i.limit i.tokens = .error m) :
    i.Offers m.offset := by
  obtain ⟨t, -, hends⟩ := i.parse_ends
  rw [h] at hends
  cases hends with
  | error _ _ ho => exact ho

/-- On every list of tokens and under every limit the parser comes to the outcome of the grammar
without passing the end of the tokens or taking a counter below zero. Where there are tokens, so
that it calls its functions at all, they keep their promises. -/
theorem parser_safe (i : Input) :
    (∃ t, i.parse .start = some (Expr.ofTokens i.limit i.tokens, t) ∧
      i.Ends Balanced .start (Expr.ofTokens i.limit i.tokens) t) ∧
    (i.tokens ≠ [] → i.Promises) :=
  ⟨i.parse_ends, promises⟩

theorem parser_safe_of_dangling_dot :
    let i : Input := ⟨[⟨.name "a", 3⟩, ⟨.symbol .dot, 4⟩], 2⟩
    (∃ t, i.parse .start = some (.error ⟨.unexpected .propertyName (.symbol .dot), 4⟩, t) ∧
        t.pos ≤ 2) ∧
      ∃ r t, i.suffixes ⟨0, 1⟩ = some (r, t) ∧ i.Ends Climbed ⟨0, 1⟩ r t := by
  intro i
  have hread : Expr.ofTokens i.limit i.tokens =
      .error ⟨.unexpected .propertyName (.symbol .dot), 4⟩ := rfl
  obtain ⟨⟨t, ht, hends⟩, hpromises⟩ := i.parser_safe
  rw [hread] at ht hends
  cases hends with
  | error hp _ _ =>
      exact ⟨⟨t, ht, hp⟩, (hpromises (List.cons_ne_nil _ _)).suffixes _ (Nat.zero_le _)⟩

end TemplateExpr.Input
