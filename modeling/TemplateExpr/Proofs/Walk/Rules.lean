import TemplateExpr.Proofs.Grammar.Maximal
import TemplateExpr.Proofs.Walk.Counters

namespace TemplateExpr.Input

variable {α β : Type} {i : Input} {s t : Counters} {c : Cursor} {b : Nat} {Q R : Counters → Prop}

structure Reaches (i : Input) (s : Counters) (Q : Counters → Prop) (a : α) (t : Counters)
    (r : α × Cursor) : Prop where
  value : a = r.1
  place : i.At t r.2
  depth_le : s.depth ≤ t.depth
  pos_le : s.pos ≤ t.pos
  exit : Q t

structure Fails (i : Input) (s : Counters) (m : Mistake) (t : Counters) (f : Failure) : Prop where
  mistake : m = f.toMistake i.limit
  offset : ∃ u ∈ i.tokens, u.offset = m.offset
  depth_le : s.depth ≤ t.depth
  pos_le : t.pos ≤ i.tokens.length

def Follows (i : Input) (x : Walk Counters α) (s : Counters) (Q : Counters → Prop)
    (o : Except Failure (α × Cursor)) : Prop :=
  Walk.Follows x s (i.Reaches s Q) (i.Fails s) o

structure Balanced (s t : Counters) : Prop where
  depth : t.depth = s.depth
  pos : s.pos < t.pos

theorem Balanced.next (s : Counters) : Balanced s s.next :=
  ⟨rfl, Nat.lt_succ_self _⟩

theorem Balanced.trans {u : Counters} (h : Balanced s t) (h' : Balanced t u) : Balanced s u :=
  ⟨h'.depth.trans h.depth, Nat.lt_trans h.pos h'.pos⟩

namespace Follows

variable {x y : Walk Counters α} {o : Except Failure (α × Cursor)}

theorem pure {a : α} (hc : i.At s c) (hq : Q s) : i.Follows (Pure.pure a) s Q (.ok (a, c)) :=
  .ok rfl ⟨rfl, hc, Nat.le_refl _, Nat.le_refl _, hq⟩

theorem mono (h : i.Follows x s Q o) (hQ : ∀ t, s.depth ≤ t.depth → s.pos ≤ t.pos → Q t → R t) :
    i.Follows x s R o :=
  Walk.Follows.mono h
    (fun _ _ _ ⟨hv, hp, hd, hl, hq⟩ => ⟨hv, hp, hd, hl, hQ _ hd hl hq⟩) fun _ _ _ => id

theorem since (h : i.Follows y t Q o) (hd : s.depth ≤ t.depth) (hp : s.pos ≤ t.pos) :
    Walk.Follows y t (i.Reaches s Q) (i.Fails s) o :=
  Walk.Follows.mono h (fun _ _ _ ⟨hv, hc, hd', hp', hq⟩ =>
      ⟨hv, hc, Nat.le_trans hd hd', Nat.le_trans hp hp', hq⟩)
    fun _ _ _ ⟨hm, ho, hd', hp'⟩ => ⟨hm, ho, Nat.le_trans hd hd', hp'⟩

theorem of_eq (h : i.Follows y t Q o) (hx : x s = y t) (hd : s.depth ≤ t.depth)
    (hp : s.pos ≤ t.pos) : i.Follows x s Q o :=
  (h.since hd hp).of_eq hx

theorem bind {f : α → Walk Counters β} {g : α × Cursor → Except Failure (β × Cursor)}
    (h : i.Follows x s Q o) (hf : ∀ a t c, i.At t c → s.depth ≤ t.depth → s.pos ≤ t.pos → Q t →
      i.Follows (f a) t R (g (a, c))) : i.Follows (x >>= f) s R (o >>= g) := by
  refine Walk.Follows.bind h ?_
  rintro _ t ⟨a, c⟩ ⟨rfl, hc, hd, hp, hq⟩
  exact (hf _ t c hc hd hp hq).since hd hp

theorem bind_error {f : α → Walk Counters β} {e : Failure}
    (h : i.Follows x s (fun _ => True) (.error e)) : i.Follows (x >>= f) s Q (.error e) := by
  cases h with
  | error hx hf => exact .error (Walk.bind_of_error hx f) hf

theorem unexpected (hc : i.At s c) (hne : i.tokens ≠ []) (e : Expectation) :
    i.Follows (i.unexpected (α := α) e) s Q (.error (.unexpected e c.here)) :=
  .error (hc.unexpected e) ⟨rfl, hc.exists_offset hne, Nat.le_refl _, hc.pos_le⟩

theorem tooDeep {f : Unit → Walk Counters α} (hc : i.At s c) (hne : i.tokens ≠ [])
    (hle : i.limit ≤ s.depth) : i.Follows (i.enter >>= f) s Q (.error (.tooDeep c.offset)) :=
  .error (Walk.bind_of_error (hc.enter_of_le hle) f)
    ⟨rfl, hc.exists_offset hne, Nat.le_succ _, hc.pos_le⟩

theorem nesting (hlt : s.depth < i.limit) (h : i.Follows x s.deeper (Balanced s.deeper) o) :
    i.Follows (do i.enter; fun u => do let (r, t) ← x u; some (r, ← t.leave?)) s (Balanced s) o := by
  have hleave {r : Except Mistake α} {t : Counters} {d : Nat} (hx : x s.deeper = some (r, t))
      (hd : t.depth = d + 1) :
      (do i.enter; fun u => do let (r, t) ← x u; some (r, ← t.leave?) : Walk Counters α) s =
        some (r, { t with depth := d }) := by
    rw [Walk.bind_of_ok (At.enter_of_lt hlt)]
    change (x s.deeper).bind _ = _
    rw [hx]
    change t.leave?.bind _ = _
    rw [Counters.leave?, hd]
    rfl
  cases h with
  | @ok a t r hx hr =>
      obtain ⟨hv, hc, -, hp, hdepth, hpos⟩ := hr
      exact .ok (hleave hx hdepth) ⟨hv, ⟨hc.tokens, hc.pos⟩, Nat.le_refl _, hp, rfl, hpos⟩
  | @error m t f hx hf =>
      obtain ⟨hm, ho, hd, hp⟩ := hf
      obtain ⟨d, hd⟩ := Nat.exists_eq_add_of_le hd
      have hdepth : t.depth = s.depth + d + 1 := by
        rw [hd, Counters.deeper_depth]
        omega
      exact .error (hleave hx hdepth) ⟨hm, ho, Nat.le_add_right _ _, hp⟩

theorem restoring (h : i.Follows x s (s.pos < ·.pos) o) :
    i.Follows (fun u => do let (r, t) ← x u; some (r, { t with depth := u.depth })) s
      (Balanced s) o := by
  cases h with
  | @ok a t r hx hr =>
      obtain ⟨hv, hc, -, hp, hq⟩ := hr
      refine .ok (t := { t with depth := s.depth }) ?_
        ⟨hv, ⟨hc.tokens, hc.pos⟩, Nat.le_refl _, hp, rfl, hq⟩
      change (x s).bind _ = _
      rw [hx]
      rfl
  | @error m t f hx hf =>
      obtain ⟨hm, ho, hd, hp⟩ := hf
      refine .error (t := { t with depth := s.depth }) ?_ ⟨hm, ho, Nat.le_refl _, hp⟩
      change (x s).bind _ = _
      rw [hx]
      rfl

section

variable {u : Token} {e : Expectation} {sym : Symbol}

theorem peek {f : Token → Walk Counters α} (hc : i.At s c) (h : i.Follows (f c.token) s Q o) :
    i.Follows (i.peek >>= f) s Q o :=
  h.of_eq (Walk.bind_of_ok hc.peek f) (Nat.le_refl _) (Nat.le_refl _)

theorem offset {f : Nat → Walk Counters α} (hc : i.At s c) (h : i.Follows (f c.offset) s Q o) :
    i.Follows (i.offset >>= f) s Q o :=
  h.of_eq (Walk.bind_of_ok hc.offset f) (Nat.le_refl _) (Nat.le_refl _)

theorem advance {f : Token → Walk Counters α} (hc : i.At s c) (hne : c.after ≠ [])
    (h : i.Follows (f c.token) s.next Q o) : i.Follows (i.advance >>= f) s Q o :=
  h.of_eq (Walk.bind_of_ok (hc.advance_of_ne_nil hne) f) (Nat.le_refl _) (Nat.le_succ _)

theorem take {f : Token → Walk Counters α} {a : α} (hc : i.At s c) (ht : c.token = u)
    (hstop : u ≠ .stop) (hf : f u = Pure.pure a) :
    i.Follows (i.advance >>= f) s (Balanced s) (.ok (a, c.advance)) := by
  subst ht
  have hcons := Cursor.after_ne_nil hstop
  refine .advance hc hcons ?_
  rw [hf]
  exact .pure (hc.next hcons) (.next s)

theorem eat_of_eq {f : Bool → Walk Counters α} (hc : i.At s c) (ht : c.token = .symbol sym)
    (h : i.Follows (f true) s.next Q o) : i.Follows (i.eat (.symbol sym) >>= f) s Q o :=
  h.of_eq (Walk.bind_of_ok (hc.eat_of_eq ht (by simp)) f) (Nat.le_refl _) (Nat.le_succ _)

theorem eat_of_ne {f : Bool → Walk Counters α} (hc : i.At s c) (ht : c.token ≠ u)
    (h : i.Follows (f false) s Q o) : i.Follows (i.eat u >>= f) s Q o :=
  h.of_eq (Walk.bind_of_ok (hc.eat_of_ne ht) f) (Nat.le_refl _) (Nat.le_refl _)

theorem operator {f : Option BinaryOp → Walk Counters α} {operator? : Token → Option BinaryOp}
    {op : BinaryOp} (hc : i.At s c) (hop : operator? c.token = some op) (hne : c.after ≠ [])
    (h : i.Follows (f (some op)) s.next Q o) : i.Follows (i.eatOperator operator? >>= f) s Q o :=
  h.of_eq (Walk.bind_of_ok (hc.eatOperator_of_some hop hne) f) (Nat.le_refl _) (Nat.le_succ _)

theorem noOperator {f : Option BinaryOp → Walk Counters α} {operator? : Token → Option BinaryOp}
    (hc : i.At s c) (hop : operator? c.token = none) (h : i.Follows (f none) s Q o) :
    i.Follows (i.eatOperator operator? >>= f) s Q o :=
  h.of_eq (Walk.bind_of_ok (hc.eatOperator_of_none hop) f) (Nat.le_refl _) (Nat.le_refl _)

theorem enter {f : Unit → Walk Counters α} (hlt : s.depth < i.limit)
    (h : i.Follows (f ()) s.deeper Q o) : i.Follows (i.enter >>= f) s Q o :=
  h.of_eq (Walk.bind_of_ok (At.enter_of_lt hlt) f) (Nat.le_succ _) (Nat.le_refl _)

theorem expect {f : Unit → Walk Counters α} {g : Cursor → Except Failure (α × Cursor)}
    (hc : i.At s c) (hne : i.tokens ≠ [])
    (h : c.token = .symbol sym → i.At s.next c.advance → i.Follows (f ()) s.next Q (g c.advance)) :
    i.Follows (i.expect sym e >>= f) s Q (c.expect sym e >>= g) := by
  by_cases ht : c.token = .symbol sym
  · have hx : c.expect sym e = .ok c.advance := if_pos ht
    have heat : i.expect sym e s = some (.ok (), s.next) :=
      Walk.bind_of_ok (hc.eat_of_eq ht (by simp)) _
    have hnext := hc.next (Cursor.after_ne_nil_of_symbol ht)
    rw [hx]
    exact (h ht hnext).of_eq (Walk.bind_of_ok heat f) (Nat.le_refl _) (Nat.le_succ _)
  · have hx : c.expect sym e = .error (.unexpected e c.here) := if_neg ht
    have heat : i.expect sym e s = some (.error ⟨.unexpected e c.token, c.offset⟩, s) :=
      (Walk.bind_of_ok (hc.eat_of_ne ht) _).trans (hc.unexpected e)
    rw [hx]
    exact .error (Walk.bind_of_error heat f) ⟨rfl, hc.exists_offset hne, Nat.le_refl _, hc.pos_le⟩

theorem refuse {f : Token → Walk Counters α} (hc : i.At s c) (hne : i.tokens ≠ [])
    (hf : f c.token = (do putBack; i.unexpected e)) :
    i.Follows (i.advance >>= f) s Q (.error (.unexpected e c.nearest)) := by
  obtain ⟨t, hpos, hdepth, hx⟩ := hc.refuse hne e hf
  exact .error hx ⟨rfl, hc.exists_nearest hne, Nat.le_of_eq hdepth.symm, Nat.le_trans hpos hc.pos_le⟩

end

end Follows

/-- As long as no more than so many levels are left, the walk ends as the rule does. -/
def FollowsRule (i : Input) (b : Nat) (x : Walk Counters Expr) (r : Rule) : Prop :=
  ∀ s c, i.At s c → i.limit - s.depth ≤ b →
    i.Follows x s (Balanced s) (r (i.limit - s.depth) c)

section

variable (hne : i.tokens ≠ [])

include hne

-- No level is taken between two items, so the induction is on the tokens that are left.
theorem items_follows (h : i.FollowsRule b i.expression Rule.nested) {left : Nat} (hc : i.At s c)
    (hb : i.limit - s.depth ≤ b) (hleft : c.after.length < left) :
    i.Follows i.items s (Balanced s) (Rule.items Rule.nested (i.limit - s.depth) left c) := by
  induction left generalizing s c with
  | zero => exact absurd hleft (Nat.not_lt_zero _)
  | succ left ih =>
      rw [items, Rule.items]
      by_cases ht : c.token = .symbol .closeBracket
      · rw [if_pos ht]
        have hnext := hc.next (Cursor.after_ne_nil_of_symbol ht)
        exact .eat_of_eq hc ht (.pure hnext (.next s))
      · rw [if_neg ht]
        refine .eat_of_ne hc ht ((h s c hc hb).bind ?_)
        intro e t c₁ hc₁ _ _ he
        dsimp only
        by_cases hcomma : c₁.token = .symbol .comma
        · rw [if_pos hcomma]
          have hcons := Cursor.after_ne_nil_of_symbol hcomma
          have hshort : c₁.advance.after.length < left := by
            have := hc.length
            have := hc₁.length
            have := he.pos
            have := c₁.length_after_advance_le
            omega
          have hitems := ih (hc₁.next hcons) (by rwa [Counters.next_depth, he.depth]) hshort
          rw [Counters.next_depth, he.depth] at hitems
          refine .eat_of_eq hc₁ hcomma (hitems.bind ?_)
          intro es u c₂ hc₂ _ _ hes
          exact .pure hc₂ (he.trans ((Balanced.next t).trans hes))
        · rw [if_neg hcomma]
          refine .eat_of_ne hc₁ hcomma (.expect hc₁ hne fun _ hnext => ?_)
          exact .pure hnext (he.trans (.next t))

theorem primary_follows (h : i.FollowsRule b i.expression Rule.nested) :
    i.FollowsRule b i.primary (Rule.primary Rule.nested) := by
  intro s c hc hb
  rw [primary, Rule.primary]
  refine .offset hc ?_
  split
  · rename_i x ht
    exact .take hc ht (by simp) rfl
  · rename_i x ht
    exact .take hc ht (by simp) rfl
  · rename_i w ht
    exact .take hc ht (by simp) rfl
  · rename_i x ht
    exact .take hc ht (by simp) rfl
  · rename_i ht
    have hcons := Cursor.after_ne_nil_of_symbol ht
    refine .advance hc hcons ?_
    rw [ht]
    refine (h s.next c.advance (hc.next hcons) hb).bind ?_
    intro e t c₁ hc₁ _ _ he
    refine .expect hc₁ hne fun _ hnext => .pure hnext ?_
    exact (Balanced.next s).trans (he.trans (.next t))
  · rename_i ht
    have hcons := Cursor.after_ne_nil_of_symbol ht
    have hshort : c.advance.after.length < c.after.length := by
      rw [Cursor.after_eq_cons (c := c) (by simp [ht])]
      exact Nat.lt_succ_self _
    refine .advance hc hcons ?_
    rw [ht]
    refine (items_follows hne h (hc.next hcons) hb hshort).bind ?_
    intro es t c₁ hc₁ _ _ hes
    exact .pure hc₁ ((Balanced.next s).trans hes)
  · rename_i hnumber htext hword hname hparen hbracket
    refine .refuse hc hne ?_
    split <;> simp_all

theorem property_follows (hc : i.At s c) :
    i.Follows i.property s (Balanced s) (Rule.property c) := by
  rw [property, Rule.property]
  split
  · rename_i x ht
    exact .take hc ht (by simp) rfl
  · rename_i w ht
    exact .take hc ht (by simp) rfl
  · refine .refuse hc hne ?_
    split <;> simp_all

theorem suffixesFrom_follows (h : i.FollowsRule b i.expression Rule.nested) {budget : Nat}
    {e : Expr} (hc : i.At s c) (hbudget : i.limit - s.depth = budget) (hb : budget ≤ b) :
    i.Follows (i.suffixesFrom e) s (fun _ => True) (Rule.suffixes Rule.nested budget e c) := by
  -- Every suffix takes a level that is not given back, so the budget bounds how many there are.
  induction budget generalizing s c e with
  | zero =>
      have hle : i.limit ≤ s.depth := Nat.le_of_sub_eq_zero hbudget
      rw [suffixesFrom, Rule.suffixes]
      refine .peek hc ?_
      cases Rule.Suffix.of e c.token with
      | absent => exact .pure hc trivial
      | uncallable => exact .unexpected hc hne _
      | property => exact .tooDeep hc hne hle
      | index => exact .tooDeep hc hne hle
      | call o name => exact .tooDeep hc hne hle
  | succ budget ih =>
      have hlt : s.depth < i.limit := by omega
      have hdeeper : i.limit - s.deeper.depth = budget := by
        rw [Counters.deeper_depth]
        omega
      rw [suffixesFrom, Rule.suffixes]
      refine .peek hc ?_
      cases hs : Rule.Suffix.of e c.token with
      | absent => exact .pure hc trivial
      | uncallable => exact .unexpected hc hne _
      | property =>
          have ht := Rule.Suffix.of_eq_property.1 hs
          have hcons := Cursor.after_ne_nil_of_symbol ht
          refine .enter hlt (.advance hc.deeper hcons ?_)
          refine (property_follows hne (hc.deeper.next hcons)).bind ?_
          intro p t c₁ hc₁ _ _ hp
          exact ih hc₁ (by rw [hp.depth]; exact hdeeper) (Nat.le_of_succ_le hb)
      | index =>
          have ht := Rule.Suffix.of_eq_index.1 hs
          have hcons := Cursor.after_ne_nil_of_symbol ht
          refine .enter hlt (.advance hc.deeper hcons ?_)
          have hkey := h _ _ (hc.deeper.next hcons) (by
            rw [Counters.next_depth, hdeeper]; exact Nat.le_of_succ_le hb)
          rw [Counters.next_depth, hdeeper] at hkey
          refine hkey.bind ?_
          intro k t c₁ hc₁ _ _ hk
          refine .expect hc₁ hne fun _ hnext => ?_
          exact ih hnext (by rw [Counters.next_depth, hk.depth]; exact hdeeper) (Nat.le_of_succ_le hb)
      | call o name =>
          have ht := (Rule.Suffix.of_eq_call.1 hs).1
          have hcons := Cursor.after_ne_nil_of_symbol ht
          refine .enter hlt (.advance hc.deeper hcons ?_)
          have hnext := hc.deeper.next hcons
          refine .peek hnext ?_
          dsimp only
          by_cases hclose : c.advance.token = .symbol .closeParen
          · have hx : c.advance.expect .closeParen .noArguments = .ok c.advance.advance :=
              if_pos hclose
            have hcons₁ := Cursor.after_ne_nil_of_symbol hclose
            rw [if_pos hclose, hx]
            refine .advance hnext hcons₁ ?_
            exact ih (hnext.next hcons₁) hdeeper (Nat.le_of_succ_le hb)
          · have hx : c.advance.expect .closeParen .noArguments =
                .error (.unexpected .noArguments c.advance.here) := if_neg hclose
            rw [if_neg hclose, hx]
            exact .unexpected hnext hne _

theorem suffixes_follows (h : i.FollowsRule b i.expression Rule.nested) (hc : i.At s c)
    (hb : i.limit - s.depth ≤ b) : i.Follows i.suffixes s (s.pos < ·.pos)
      (Rule.suffixed Rule.nested (i.limit - s.depth) c) := by
  rw [suffixes]
  refine (primary_follows hne h s c hc hb).bind ?_
  intro e t c₁ hc₁ _ _ he
  refine (suffixesFrom_follows hne h hc₁ (by rw [he.depth]) hb).mono ?_
  intro u _ hpos _
  exact Nat.lt_of_lt_of_le he.pos hpos

theorem suffixed_follows (h : i.FollowsRule b i.expression Rule.nested) :
    i.FollowsRule b i.suffixed (Rule.suffixed Rule.nested) := by
  intro s c hc hb
  refine .of_eq (suffixes_follows hne h hc hb).restoring ?_ (Nat.le_refl _) (Nat.le_refl _)
  rw [suffixed]

theorem unary_follows {r : Rule} (h : i.FollowsRule b i.suffixed r) :
    i.FollowsRule b i.unary (Rule.unary r) := by
  intro s c hc hb
  generalize hbudget : i.limit - s.depth = budget at hb
  induction budget generalizing s c with
  | zero =>
      rw [unary]
      refine .offset hc (.peek hc ?_)
      cases hop : Rule.unaryOp? c.token with
      | none =>
          rw [Rule.unary_of_none hop, ← hbudget]
          exact h s c hc (hbudget ▸ hb)
      | some op =>
          have hcons := Cursor.after_ne_nil_of_symbol (unaryOp?_eq_some.1 hop)
          rw [Rule.unary_zero hop]
          refine .advance hc hcons (.bind_error (.tooDeep (hc.next hcons) hne ?_))
          exact Nat.le_of_sub_eq_zero hbudget
  | succ budget ih =>
      rw [unary]
      refine .offset hc (.peek hc ?_)
      cases hop : Rule.unaryOp? c.token with
      | none =>
          rw [Rule.unary_of_none hop, ← hbudget]
          exact h s c hc (hbudget ▸ hb)
      | some op =>
          have hcons := Cursor.after_ne_nil_of_symbol (unaryOp?_eq_some.1 hop)
          have hlt : s.next.depth < i.limit := by
            rw [Counters.next_depth]
            omega
          have hdeeper : i.limit - s.next.deeper.depth = budget := by
            rw [Counters.deeper_depth, Counters.next_depth]
            omega
          rw [Rule.unary_succ hop]
          have hoperand := ih _ _ (hc.next hcons).deeper hdeeper (Nat.le_of_succ_le hb)
          refine .advance hc hcons (.bind (.nesting hlt hoperand) ?_)
          intro e t c₁ hc₁ _ _ he
          exact .pure hc₁ ((Balanced.next s).trans he)

theorem chainFrom_follows {p : Precedence} {r : Rule} (h : i.FollowsRule b (i.operand p) r)
    {budget : Nat} {e : Expr} (hc : i.At s c) (hbudget : i.limit - s.depth = budget)
    (hb : budget ≤ b) : i.Follows (i.chainFrom p e) s (fun _ => True)
      (Rule.chain p.operator? r budget e c) := by
  induction budget generalizing s c e with
  | zero =>
      rw [chainFrom]
      cases hop : p.operator? c.token with
      | none =>
          rw [Rule.chain_of_none hop]
          exact .noOperator hc hop (.pure hc trivial)
      | some op =>
          have hcons := Cursor.after_ne_nil_of_symbol (Precedence.operator?_eq_some.1 hop).1
          rw [Rule.chain_zero hop]
          refine .operator hc hop hcons (.tooDeep (hc.next hcons) hne ?_)
          exact Nat.le_of_sub_eq_zero hbudget
  | succ budget ih =>
      rw [chainFrom]
      cases hop : p.operator? c.token with
      | none =>
          rw [Rule.chain_of_none hop]
          exact .noOperator hc hop (.pure hc trivial)
      | some op =>
          have hcons := Cursor.after_ne_nil_of_symbol (Precedence.operator?_eq_some.1 hop).1
          have hlt : s.next.depth < i.limit := by
            rw [Counters.next_depth]
            omega
          have hdeeper : i.limit - s.next.deeper.depth = budget := by
            rw [Counters.deeper_depth, Counters.next_depth]
            omega
          have hright := h _ _ (hc.next hcons).deeper (hdeeper ▸ Nat.le_of_succ_le hb)
          rw [hdeeper] at hright
          rw [Rule.chain_succ hop]
          refine .operator hc hop hcons (.enter hlt (hright.bind ?_))
          intro right t c₁ hc₁ _ _ hr
          exact ih hc₁ (by rw [hr.depth, hdeeper]) (Nat.le_of_succ_le hb)

theorem chain_follows {p : Precedence} {r : Rule} (h : i.FollowsRule b (i.operand p) r)
    (hc : i.At s c) (hb : i.limit - s.depth ≤ b) : i.Follows (i.chain p) s (s.pos < ·.pos)
      (Rule.binary p.operator? r (i.limit - s.depth) c) := by
  rw [chain]
  refine (h s c hc hb).bind ?_
  intro e t c₁ hc₁ _ _ he
  refine (chainFrom_follows hne h hc₁ (by rw [he.depth]) hb).mono ?_
  intro u _ hpos _
  exact Nat.lt_of_lt_of_le he.pos hpos

theorem binary_follows {p : Precedence} {r : Rule} (h : i.FollowsRule b (i.operand p) r) :
    i.FollowsRule b (i.binary p) (Rule.binary p.operator? r) := by
  intro s c hc hb
  refine .of_eq (chain_follows hne h hc hb).restoring ?_ (Nat.le_refl _) (Nat.le_refl _)
  rw [binary]

theorem operand_follows (h : i.FollowsRule b i.expression Rule.nested) (p : Precedence) :
    i.FollowsRule b (i.operand p) p.operand := by
  induction p using Grammar.operand_induct with
  | unary =>
      rw [operand]
      exact unary_follows hne (suffixed_follows hne h)
  | looser p q hpq ih =>
      have hrule := binary_follows hne ih
      cases hpq 0 <;> (rw [operand]; exact hrule)

theorem ternary_follows (h : i.FollowsRule b i.expression Rule.nested) :
    i.FollowsRule b i.ternary (Rule.ternary Rule.nested) := by
  intro s c hc hb
  rw [ternary, Rule.ternary]
  have hcondition := binary_follows hne (operand_follows hne h .equality) s c hc hb
  refine hcondition.bind ?_
  intro p t c₁ hc₁ _ _ hp
  dsimp only
  by_cases ht : c₁.token = .symbol .question
  · rw [if_pos ht]
    have hnext := hc₁.next (Cursor.after_ne_nil_of_symbol ht)
    have hyes := h _ _ hnext (by rwa [Counters.next_depth, hp.depth])
    rw [Counters.next_depth, hp.depth] at hyes
    refine .eat_of_eq hc₁ ht (hyes.bind ?_)
    intro yes u c₂ hc₂ _ _ hy
    refine .expect hc₂ hne fun _ hnext₂ => ?_
    have hno := h _ _ hnext₂ (by rwa [Counters.next_depth, hy.depth, Counters.next_depth, hp.depth])
    rw [Counters.next_depth, hy.depth, Counters.next_depth, hp.depth] at hno
    refine hno.bind ?_
    intro no v c₃ hc₃ _ _ hn
    exact .pure hc₃ (hp.trans ((Balanced.next t).trans (hy.trans ((Balanced.next u).trans hn))))
  · rw [if_neg ht]
    exact .eat_of_ne hc₁ ht (.pure hc₁ hp)

-- The functions below ask for nested expressions with fewer levels left, for which the rule is known.
theorem expression_follows (b : Nat) : i.FollowsRule b i.expression Rule.nested := by
  induction b with
  | zero =>
      intro s c hc hb
      have hlimit := Nat.le_zero.1 hb
      rw [expression, hlimit]
      exact .tooDeep hc hne (Nat.le_of_sub_eq_zero hlimit)
  | succ b ih =>
      intro s c hc hb
      rw [expression]
      cases hbudget : i.limit - s.depth with
      | zero => exact .tooDeep hc hne (Nat.le_of_sub_eq_zero hbudget)
      | succ budget =>
          have hdeeper : i.limit - s.deeper.depth = budget := by
            rw [Counters.deeper_depth]
            omega
          have hternary := ternary_follows hne ih _ _ hc.deeper (by omega)
          rw [hdeeper] at hternary
          rw [Rule.nested_succ]
          exact hternary.nesting (by omega)

end

end TemplateExpr.Input
