import TemplateExpr.Proofs.Grammar.Derivation
import TemplateExpr.Proofs.Grammar.Nested

namespace TemplateExpr

def Token.tightness : Token → Nat
  | .symbol .question => 1
  | .symbol .strictEqual => 2
  | .symbol .strictUnequal => 2
  | .symbol .less => 3
  | .symbol .lessEqual => 3
  | .symbol .greater => 3
  | .symbol .greaterEqual => 3
  | .symbol .plus => 4
  | .symbol .minus => 4
  | .symbol .star => 5
  | .symbol .slash => 5
  | .symbol .dot => 6
  | .symbol .openBracket => 6
  | .symbol .openParen => 6
  | _ => 0

def Precedence.tightness : Precedence → Nat
  | .equality => 2
  | .relational => 3
  | .additive => 4
  | .multiplicative => 5

theorem BinaryOp.tightness_symbol (op : BinaryOp) :
    (Token.symbol op.symbol).tightness = op.precedence.tightness := by
  cases op <;> rfl

theorem Precedence.operator?_eq_none {p : Precedence} {t : Token}
    (h : t.tightness ≠ p.tightness) : p.operator? t = none := by
  cases hop : p.operator? t with
  | none => rfl
  | some op =>
      obtain ⟨rfl, rfl⟩ := Precedence.operator?_eq_some.1 hop
      exact (h op.tightness_symbol).elim

theorem Suffix.of_eq_absent {e : Expr} {t : Token} (h : t.tightness < 6) :
    Rule.Suffix.of e t = .absent := by
  unfold Rule.Suffix.of
  split <;> first | rfl | simp [Token.tightness] at h

def nextToken (rest : List Located) : Token :=
  (Cursor.ofTokens rest).token

theorem Cursor.token_mk (before rest : List Located) :
    Cursor.token ⟨before, rest⟩ = nextToken rest := by
  cases rest with
  | nil => cases before <;> rfl
  | cons t rest => rfl

@[simp] theorem nextToken_cons (t : Located) (rest : List Located) :
    nextToken (t :: rest) = t.token := rfl

def Precedence.operand : Precedence → Rule
  | .equality => Rule.binary Rule.relational? <| Rule.binary Rule.additive? <|
      Rule.binary Rule.multiplicative? <| Rule.unary (Rule.suffixed Rule.nested)
  | .relational => Rule.binary Rule.additive? <| Rule.binary Rule.multiplicative? <|
      Rule.unary (Rule.suffixed Rule.nested)
  | .additive => Rule.binary Rule.multiplicative? <| Rule.unary (Rule.suffixed Rule.nested)
  | .multiplicative => Rule.unary (Rule.suffixed Rule.nested)

def Precedence.rule (p : Precedence) : Rule :=
  Rule.binary p.operator? p.operand

namespace Grammar

section

variable {α β : Type} {n m b : Nat}

def TooDeep (r : Except Failure α) : Prop :=
  ∃ o, r = .error (.tooDeep o)

def Settles (n budget : Nat) (r v : Except Failure α) : Prop :=
  (n ≤ budget → r = v) ∧ (budget < n → TooDeep r)

theorem TooDeep.bind {r : Except Failure α} (h : TooDeep r) (f : α → Except Failure β) :
    TooDeep (r >>= f) := by
  obtain ⟨o, rfl⟩ := h
  exact ⟨o, rfl⟩

theorem Settles.refl (b : Nat) (r : Except Failure α) : Settles 0 b r r :=
  ⟨fun _ => rfl, fun h => (Nat.not_lt_zero b h).elim⟩

theorem Settles.trans {r s v : Except Failure α} (h : Settles n b r s) (h' : Settles m b s v) :
    Settles (max n m) b r v := by
  constructor
  · intro hle
    rw [h.1 (by omega), h'.1 (by omega)]
  · intro hlt
    by_cases hn : n ≤ b
    · rw [h.1 hn]
      exact h'.2 (by omega)
    · exact h.2 (by omega)

theorem Settles.bind {r : Except Failure α} {a : α} {f : α → Except Failure β}
    {v : Except Failure β} (h : Settles n b r (.ok a)) (h' : Settles m b (f a) v) :
    Settles (max n m) b (r >>= f) v := by
  constructor
  · intro hle
    rw [h.1 (by omega), ← h'.1 (by omega)]
    rfl
  · intro hlt
    by_cases hn : n ≤ b
    · rw [h.1 hn]
      exact h'.2 (by omega)
    · exact (h.2 (by omega)).bind f

theorem Settles.map {r : Except Failure α} {a : α} {f : α → Except Failure β}
    {v : Except Failure β} (h : Settles n b r (.ok a)) (hf : f a = v) :
    Settles n b (r >>= f) v := by
  have := h.bind (hf ▸ Settles.refl b (f a) : Settles 0 b (f a) v)
  rwa [Nat.max_zero] at this

theorem Settles.succ {r v : Except Failure α} (h : Settles n b r v) :
    Settles (n + 1) (b + 1) r v :=
  ⟨fun hle => h.1 (Nat.le_of_succ_le_succ hle), fun hlt => h.2 (Nat.lt_of_succ_lt_succ hlt)⟩

theorem TooDeep.settles {r v : Except Failure α} (h : TooDeep r) (hb : b < n) : Settles n b r v :=
  ⟨fun hle => (Nat.not_lt.2 hle hb).elim, fun _ => h⟩

end

def Reads (r : Rule) (next : Nat → Expr → Cursor → Except Failure (Expr × Cursor)) (level : Nat)
    (ts : List Located) (e : Expr) (n : Nat) : Prop :=
  ∀ budget before rest, (nextToken rest).tightness < level →
    Settles n budget (r budget ⟨before, ts ++ rest⟩) (next budget e ⟨ts.reverse ++ before, rest⟩)

def pass (_ : Nat) (e : Expr) (c : Cursor) : Except Failure (Expr × Cursor) :=
  .ok (e, c)

def ReadsItems (ts : List Located) (es : List Expr) (n : Nat) : Prop :=
  ∀ budget left before rest, ts.length ≤ left →
    Settles n budget (Rule.items Rule.nested budget left ⟨before, ts ++ rest⟩)
      (.ok (es, ⟨ts.reverse ++ before, rest⟩))

-- Below the tightness of what follows a phrase nothing goes on, so a phrase ends where it should.
def ReadsAs (ts : List Located) (e : Expr) (n : Nat) : Category → Prop
  | .expression => Reads Rule.nested pass 1 ts e n
  | .chain p k =>
      Reads p.rule (fun b => Rule.chain p.operator? p.operand (b - k)) (p.tightness + 1) ts e n
  | .unary => Reads (Rule.unary (Rule.suffixed Rule.nested)) pass 6 ts e n
  | .suffixed k =>
      Reads (Rule.suffixed Rule.nested) (fun b => Rule.suffixes Rule.nested (b - k)) 7 ts e n
  | .primary => Reads (Rule.primary Rule.nested) pass 7 ts e n
  | .arrayTail o => ∃ es, e = .array o es ∧ ReadsItems ts es n

variable {ts us vs : List Located} {e x y : Expr} {n m l k : Nat}

theorem Reads.ofChain {p : Precedence} (h : ReadsAs ts e n (.chain p k)) :
    Reads p.rule pass p.tightness ts e n := by
  intro budget before rest hrest
  have hread := h budget before rest (Nat.lt_succ_of_lt hrest)
  have hnone : p.operator? (Cursor.token ⟨ts.reverse ++ before, rest⟩) = none := by
    rw [Cursor.token_mk]
    exact Precedence.operator?_eq_none (Nat.ne_of_lt hrest)
  dsimp only at hread
  rwa [Rule.chain_of_none hnone] at hread

theorem Reads.ofOperand {p : Precedence} {c : Category} (hc : Operand p c)
    (h : ReadsAs ts e n c) : Reads p.operand pass (p.tightness + 1) ts e n := by
  cases hc with
  | multiplicative => exact h
  | equality k => exact Reads.ofChain h
  | relational k => exact Reads.ofChain h
  | additive k => exact Reads.ofChain h

theorem Reads.plain (h : ReadsAs ts e n (.chain .equality k)) :
    Reads Rule.nested pass 1 ts e (n + 1) := by
  intro budget before rest hrest
  cases budget with
  | zero => exact TooDeep.settles ⟨_, Rule.nested_zero _⟩ (Nat.succ_pos n)
  | succ b =>
      rw [Rule.nested_succ]
      have hq : nextToken rest ≠ .symbol .question := by
        intro he
        simp [he, Token.tightness] at hrest
      refine ((Reads.ofChain h) b before rest (Nat.lt_trans hrest (by decide))).map ?_ |>.succ
      dsimp only
      rw [Cursor.token_mk, if_neg hq]
      rfl

theorem Reads.ternary {p yes no : Expr} (a b : Nat) (hp : ReadsAs ts p n (.chain .equality k))
    (hy : ReadsAs us yes m .expression) (hn : ReadsAs vs no l .expression) :
    Reads Rule.nested pass 1 (ts ++ ⟨.symbol .question, a⟩ :: (us ++ ⟨.symbol .colon, b⟩ :: vs))
      (.ternary p.offset p yes no) (max n (max m l) + 1) := by
  intro budget before rest hrest
  cases budget with
  | zero => exact TooDeep.settles ⟨_, Rule.nested_zero _⟩ (Nat.succ_pos _)
  | succ d =>
      rw [Rule.nested_succ, List.append_assoc]
      refine ((Reads.ofChain hp d before _ (by exact (by decide : 1 < 2))).bind ?_).succ
      simp only [List.cons_append, Cursor.token_cons, if_true, Cursor.advance_cons,
        List.append_assoc]
      refine (hy d _ _ (by exact (by decide : 0 < 1))).bind ?_
      simp only [Cursor.expect_cons]
      refine (hn d _ rest hrest).map ?_
      simp [pass]

theorem Reads.single {p : Precedence} {c : Category} (hc : Operand p c) (h : ReadsAs ts e n c) :
    ReadsAs ts e n (.chain p 0) := by
  intro budget before rest hrest
  exact (Reads.ofOperand hc h budget before rest hrest).map rfl

theorem Reads.operator {p : Precedence} {c : Category} (op : BinaryOp) (a : Nat)
    (hop : op.precedence = p) (hx : ReadsAs ts x n (.chain p k)) (hc : Operand p c)
    (hy : ReadsAs us y m c) :
    ReadsAs (ts ++ ⟨.symbol op.symbol, a⟩ :: us) (.binary x.offset op x y) (max n (k + 1 + m))
      (.chain p (k + 1)) := by
  intro budget before rest hrest
  have htok : p.operator? (Token.symbol op.symbol) = some op :=
    Precedence.operator?_eq_some.2 ⟨rfl, hop⟩
  have hlevel : (Token.symbol op.symbol).tightness < p.tightness + 1 := by
    rw [op.tightness_symbol, hop]
    exact Nat.lt_succ_self _
  rw [List.append_assoc]
  refine (hx budget before (⟨.symbol op.symbol, a⟩ :: us ++ rest) hlevel).trans ?_
  dsimp only
  -- The loop has `budget - k` left when it comes to the operator, which takes one of it.
  rcases Nat.lt_or_ge k budget with hb | hb
  · obtain ⟨d, rfl⟩ := Nat.exists_eq_add_of_lt hb
    rw [show k + d + 1 - k = d + 1 by omega, show k + d + 1 - (k + 1) = d by omega,
      List.cons_append, Rule.chain_succ htok]
    have hread := Reads.ofOperand hc hy d (⟨.symbol op.symbol, a⟩ :: (ts.reverse ++ before)) rest
      hrest
    constructor
    · intro hle
      rw [Cursor.advance_cons, hread.1 (by omega)]
      simp [bind, Except.bind, pass]
    · intro hlt
      exact (hread.2 (by omega)).bind _
  · rw [show budget - k = 0 by omega]
    exact TooDeep.settles ⟨_, Rule.chain_zero htok⟩ (by omega)

theorem Reads.suffixed (h : ReadsAs ts e n (.suffixed k)) :
    Reads (Rule.suffixed Rule.nested) pass 6 ts e n := by
  intro budget before rest hrest
  have hread := h budget before rest (Nat.lt_succ_of_lt hrest)
  have habsent : Rule.Suffix.of e (Cursor.token ⟨ts.reverse ++ before, rest⟩) = .absent := by
    rw [Cursor.token_mk]
    exact Suffix.of_eq_absent hrest
  have hstop : ∀ b, Rule.suffixes Rule.nested b e ⟨ts.reverse ++ before, rest⟩ =
      .ok (e, ⟨ts.reverse ++ before, rest⟩) := by
    intro b
    cases b <;> rw [Rule.suffixes, habsent]
  dsimp only at hread
  rwa [hstop] at hread

theorem Reads.ofSuffixed {t : Located} (ht : Rule.unaryOp? t.token = none)
    (h : ReadsAs (t :: ts) e n (.suffixed k)) : ReadsAs (t :: ts) e n .unary := by
  intro budget before rest hrest
  rw [List.cons_append, Rule.unary_of_none (by exact ht)]
  exact (Reads.suffixed h) budget before rest hrest

theorem Reads.unary (op : UnaryOp) (o : Nat) (h : ReadsAs ts e n .unary) :
    ReadsAs (⟨.symbol op.symbol, o⟩ :: ts) (.unary o op e) (n + 1) .unary := by
  intro budget before rest hrest
  have htok : Rule.unaryOp? (Token.symbol op.symbol) = some op := unaryOp?_eq_some.2 rfl
  cases budget with
  | zero => exact TooDeep.settles ⟨_, Rule.unary_zero htok⟩ (Nat.succ_pos n)
  | succ b =>
      rw [List.cons_append,
        Rule.unary_succ (c := ⟨before, ⟨.symbol op.symbol, o⟩ :: (ts ++ rest)⟩) htok]
      refine ((h b _ rest hrest).map ?_).succ
      simp [pass]

theorem Reads.primary (h : ReadsAs ts e n .primary) : ReadsAs ts e n (.suffixed 0) := by
  intro budget before rest hrest
  exact (h budget before rest hrest).map rfl

theorem Reads.suffix (h : ReadsAs ts x n (.suffixed k))
    (hlevel : ∀ rest, (nextToken (us ++ rest)).tightness < 7)
    (hdeep : ∀ before rest, TooDeep (Rule.suffixes Rule.nested 0 x ⟨before, us ++ rest⟩))
    (hstep : ∀ d before rest, (nextToken rest).tightness < 7 →
      Settles m d (Rule.suffixes Rule.nested (d + 1) x ⟨before, us ++ rest⟩)
        (Rule.suffixes Rule.nested d y ⟨us.reverse ++ before, rest⟩)) :
    ReadsAs (ts ++ us) y (max n (k + 1 + m)) (.suffixed (k + 1)) := by
  intro budget before rest hrest
  rw [List.append_assoc]
  refine (h budget before (us ++ rest) (hlevel rest)).trans ?_
  dsimp only
  rcases Nat.lt_or_ge k budget with hb | hb
  · obtain ⟨d, rfl⟩ := Nat.exists_eq_add_of_lt hb
    rw [show k + d + 1 - k = d + 1 by omega, show k + d + 1 - (k + 1) = d by omega,
      List.reverse_append, List.append_assoc]
    have hread := hstep d (ts.reverse ++ before) rest hrest
    exact ⟨fun hle => hread.1 (by omega), fun hlt => hread.2 (by omega)⟩
  · rw [show budget - k = 0 by omega]
    exact (hdeep _ _).settles (by omega)

theorem property_of_propertyName? {t : Located} {name : String}
    (h : t.token.propertyName? = some name) (before rest : List Located) :
    Rule.property ⟨before, t :: rest⟩ = .ok (name, ⟨t :: before, rest⟩) := by
  obtain ⟨tok, o⟩ := t
  cases tok <;> simp_all [Token.propertyName?, Rule.property]

theorem Reads.member {t : Located} {name : String} (a : Nat) (h : ReadsAs ts e n (.suffixed k))
    (ht : t.token.propertyName? = some name) :
    ReadsAs (ts ++ [⟨.symbol .dot, a⟩, t]) (.member e.offset e name) (max n (k + 1))
      (.suffixed (k + 1)) := by
  refine Reads.suffix (m := 0) h (fun rest => by exact (by decide : 6 < 7))
    (fun before rest => ⟨a, by rw [Rule.suffixes]; rfl⟩) ?_
  intro d before rest hrest
  have hs : Rule.suffixes Rule.nested (d + 1) e ⟨before, [⟨.symbol .dot, a⟩, t] ++ rest⟩ =
      Rule.suffixes Rule.nested d (.member e.offset e name)
        ⟨[⟨.symbol .dot, a⟩, t].reverse ++ before, rest⟩ := by
    rw [Rule.suffixes]
    simp [Rule.Suffix.of, property_of_propertyName? ht, bind, Except.bind]
  rw [hs]
  exact Settles.refl d _

theorem Reads.index {key : Expr} (a b : Nat) (h : ReadsAs ts e n (.suffixed k))
    (hkey : ReadsAs us key m .expression) :
    ReadsAs (ts ++ ⟨.symbol .openBracket, a⟩ :: (us ++ [⟨.symbol .closeBracket, b⟩]))
      (.index e.offset e key) (max n (k + 1 + m)) (.suffixed (k + 1)) := by
  refine Reads.suffix h (fun rest => by exact (by decide : 6 < 7))
    (fun before rest => ⟨a, by rw [Rule.suffixes]; rfl⟩) ?_
  intro d before rest hrest
  rw [Rule.suffixes]
  simp only [List.cons_append, List.append_assoc, Cursor.token_cons, Rule.Suffix.of,
    Cursor.advance_cons]
  refine (hkey d _ _ (by exact (by decide : 0 < 1))).map ?_
  simp [bind, Except.bind]

theorem Reads.literal {t : Token} {v : Literal} (o : Nat) (h : t.literal? = some v) :
    ReadsAs [⟨t, o⟩] (.literal o v) 0 .primary := by
  intro budget before rest hrest
  have hp : Rule.primary Rule.nested budget ⟨before, ⟨t, o⟩ :: rest⟩ =
      .ok (.literal o v, ⟨⟨t, o⟩ :: before, rest⟩) := by
    cases t <;> simp_all [Token.literal?, Rule.primary]
  exact hp ▸ Settles.refl budget _

theorem Reads.name (o : Nat) (s : String) : ReadsAs [⟨.name s, o⟩] (.name o s) 0 .primary := by
  intro budget before rest hrest
  exact Settles.refl budget _

theorem Reads.parens (a b : Nat) (h : ReadsAs ts e n .expression) :
    ReadsAs (⟨.symbol .openParen, a⟩ :: (ts ++ [⟨.symbol .closeParen, b⟩])) e n .primary := by
  intro budget before rest hrest
  simp only [Rule.primary, List.cons_append, Cursor.token_cons, Cursor.advance_cons,
    List.append_assoc]
  refine (h budget _ _ (by exact (by decide : 0 < 1))).map ?_
  simp [bind, Except.bind, pass]

theorem Reads.ofCallee {o : Nat} {s : String} (h : Callee o s ts n) :
    ReadsAs ts (.name o s) n .primary := by
  induction h with
  | bare => exact Reads.name o s
  | @parens ts n a b _ ih =>
      obtain ⟨t, us, rfl, ht⟩ : ∃ t us, ts = t :: us ∧ Rule.unaryOp? t.token = none := by
        rename_i hc
        cases hc <;> exact ⟨_, _, rfl, rfl⟩
      have hu := Reads.ofSuffixed ht (Reads.primary ih)
      have hm := Reads.single .multiplicative hu
      have ha := Reads.single (.additive 0) hm
      have hr := Reads.single (.relational 0) ha
      exact Reads.parens a b (Reads.plain (Reads.single (.equality 0) hr))

theorem Reads.call {o : Nat} {s : String} (a b : Nat) (h : Callee o s ts n) :
    ReadsAs (ts ++ [⟨.symbol .openParen, a⟩, ⟨.symbol .closeParen, b⟩]) (.call o s) (max n 1)
      (.suffixed 1) := by
  refine Reads.suffix (m := 0) (Reads.primary (Reads.ofCallee h))
    (fun rest => by exact (by decide : 6 < 7)) (fun before rest => ⟨a, by rw [Rule.suffixes]; rfl⟩) ?_
  intro d before rest hrest
  have hs : Rule.suffixes Rule.nested (d + 1) (.name o s)
      ⟨before, [⟨.symbol .openParen, a⟩, ⟨.symbol .closeParen, b⟩] ++ rest⟩ =
      Rule.suffixes Rule.nested d (.call o s)
        ⟨[⟨.symbol .openParen, a⟩, ⟨.symbol .closeParen, b⟩].reverse ++ before, rest⟩ := by
    rw [Rule.suffixes]
    simp [Rule.Suffix.of, bind, Except.bind]
  rw [hs]
  exact Settles.refl d _

theorem ReadsItems.close (b : Nat) : ReadsItems [⟨.symbol .closeBracket, b⟩] [] 0 := by
  intro budget left before rest hleft
  obtain ⟨left, rfl⟩ := Nat.exists_eq_add_one.2 hleft
  exact Settles.refl budget _

theorem ReadsItems.last {t : Located} (b : Nat) (ht : t.token ≠ .symbol .closeBracket)
    (h : ReadsAs (t :: ts) e n .expression) :
    ReadsItems (t :: ts ++ [⟨.symbol .closeBracket, b⟩]) [e] n := by
  intro budget left before rest hleft
  obtain ⟨left, rfl⟩ := Nat.exists_eq_add_one.2 (Nat.lt_of_lt_of_le (by simp) hleft)
  have hread := h budget before (⟨.symbol .closeBracket, b⟩ :: rest)
    (by exact (by decide : 0 < 1))
  simp only [Rule.items, List.cons_append, List.append_assoc, Cursor.token_cons, if_neg ht]
  refine hread.map ?_
  simp [bind, Except.bind]

theorem ReadsItems.item {t : Located} {es : List Expr} (a : Nat)
    (ht : t.token ≠ .symbol .closeBracket) (h : ReadsAs (t :: ts) e n .expression)
    (hes : ReadsItems us es m) :
    ReadsItems (t :: ts ++ ⟨.symbol .comma, a⟩ :: us) (e :: es) (max n m) := by
  intro budget left before rest hleft
  obtain ⟨left, rfl⟩ := Nat.exists_eq_add_one.2 (Nat.lt_of_lt_of_le (by simp) hleft)
  simp only [List.length_append, List.length_cons] at hleft
  have hread := h budget before (⟨.symbol .comma, a⟩ :: (us ++ rest))
    (by exact (by decide : 0 < 1))
  simp only [Rule.items, List.cons_append, List.append_assoc, Cursor.token_cons, if_neg ht]
  refine hread.bind ?_
  simp only [Cursor.token_cons, if_true, Cursor.advance_cons]
  refine (hes budget left _ rest (by omega)).map ?_
  simp

theorem Reads.array {o : Nat} (h : ReadsAs ts e n (.arrayTail o)) :
    ReadsAs (⟨.symbol .openBracket, o⟩ :: ts) e n .primary := by
  obtain ⟨es, rfl, hes⟩ := h
  intro budget before rest hrest
  simp only [Rule.primary, List.cons_append, Cursor.token_cons, Cursor.advance_cons,
    Cursor.offset_cons]
  refine (hes budget _ _ rest (by simp; omega)).map ?_
  simp [pass]

def FirstToken (t : Token) : Category → Prop
  | .suffixed _ => t ≠ .symbol .closeBracket ∧ Rule.unaryOp? t = none
  | .primary => t ≠ .symbol .closeBracket ∧ Rule.unaryOp? t = none
  | .arrayTail _ => True
  | _ => t ≠ .symbol .closeBracket

theorem FirstToken.ofOperand {p : Precedence} {c : Category} {t : Token} (hc : Operand p c)
    (h : FirstToken t c) : t ≠ .symbol .closeBracket := by
  cases hc <;> exact h

theorem Derives.firstToken {c : Category} (h : Derives c ts e n) :
    ∃ t us, ts = t :: us ∧ FirstToken t.token c := by
  induction h with
  | plain _ ih => exact ih
  | ternary a b _ _ _ ih =>
      obtain ⟨t, us, rfl, ht⟩ := ih
      exact ⟨t, _, rfl, ht⟩
  | single hc _ ih =>
      obtain ⟨t, us, rfl, ht⟩ := ih
      exact ⟨t, us, rfl, ht.ofOperand hc⟩
  | operator op a _ _ _ _ ih =>
      obtain ⟨t, us, rfl, ht⟩ := ih
      exact ⟨t, _, rfl, ht⟩
  | suffixed _ ih =>
      obtain ⟨t, us, rfl, ht⟩ := ih
      exact ⟨t, us, rfl, ht.1⟩
  | unary op o _ _ => exact ⟨_, _, rfl, by cases op <;> simp [FirstToken, UnaryOp.symbol]⟩
  | primary _ ih => exact ih
  | member a _ _ ih =>
      obtain ⟨t, us, rfl, ht⟩ := ih
      exact ⟨t, _, rfl, ht⟩
  | index a b _ _ ih =>
      obtain ⟨t, us, rfl, ht⟩ := ih
      exact ⟨t, _, rfl, ht⟩
  | call a b hc =>
      cases hc
      · exact ⟨_, _, rfl, by simp, rfl⟩
      · exact ⟨_, _, rfl, by simp, rfl⟩
  | @literal t _ o hl =>
      refine ⟨_, _, rfl, ?_⟩
      cases t <;> simp_all [Token.literal?, FirstToken, Rule.unaryOp?]
  | name o s => exact ⟨_, _, rfl, by simp, rfl⟩
  | parens a b _ _ => exact ⟨_, _, rfl, by simp, rfl⟩
  | array o _ _ => exact ⟨_, _, rfl, by simp, rfl⟩
  | close o b => exact ⟨_, _, rfl, trivial⟩
  | last o b _ ih =>
      obtain ⟨t, us, rfl, _⟩ := ih
      exact ⟨t, _, rfl, trivial⟩
  | item o a _ _ ih =>
      obtain ⟨t, us, rfl, _⟩ := ih
      exact ⟨t, _, rfl, trivial⟩

theorem Derives.reads {c : Category} (h : Derives c ts e n) : ReadsAs ts e n c := by
  induction h with
  | plain _ ih => exact Reads.plain ih
  | ternary a b _ _ _ ihp ihy ihn => exact Reads.ternary a b ihp ihy ihn
  | single hc _ ih => exact Reads.single hc ih
  | operator op a hop _ hc _ ihx ihy => exact Reads.operator op a hop ihx hc ihy
  | suffixed hd ih =>
      obtain ⟨t, us, rfl, ht⟩ := hd.firstToken
      exact Reads.ofSuffixed ht.2 ih
  | unary op o _ ih => exact Reads.unary op o ih
  | primary _ ih => exact Reads.primary ih
  | member a _ ht ih => exact Reads.member a ih ht
  | index a b _ _ ih ihk => exact Reads.index a b ih ihk
  | call a b hc => exact Reads.call a b hc
  | literal o hl => exact Reads.literal o hl
  | name o s => exact Reads.name o s
  | parens a b _ ih => exact Reads.parens a b ih
  | array o _ ih => exact Reads.array ih
  | close o b => exact ⟨[], rfl, ReadsItems.close b⟩
  | last o b hd ih =>
      obtain ⟨t, us, rfl, ht⟩ := hd.firstToken
      exact ⟨_, rfl, ReadsItems.last b ht ih⟩
  | item o a hd _ ih ihs =>
      obtain ⟨t, us, rfl, ht⟩ := hd.firstToken
      obtain ⟨es, hes, hitems⟩ := ihs
      cases hes
      exact ⟨_, rfl, ReadsItems.item a ht ih hitems⟩

end Grammar

end TemplateExpr
