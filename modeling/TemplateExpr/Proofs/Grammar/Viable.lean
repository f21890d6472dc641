import TemplateExpr.Proofs.Grammar.Sound

namespace TemplateExpr.Grammar

def Sentence (ts : List Located) : Prop :=
  ∃ e n, Derives .expression ts e n

def Viable (ts : List Located) : Prop :=
  ∃ rest, Sentence (ts ++ rest)

def Begins (P : Category → Prop) (us : List Located) : Prop :=
  ∃ cat vs e n, P cat ∧ Derives cat (us ++ vs) e n

variable {P Q : Category → Prop} {ts us vs : List Located} {e x y : Expr} {n m k : Nat}

theorem Derives.begins {cat : Category} (h : Derives cat us e n) : Begins (· = cat) us :=
  ⟨cat, [], e, n, rfl, by rwa [List.append_nil]⟩

theorem Begins.mono (h : Begins P us) (hPQ : ∀ cat, P cat → Q cat) : Begins Q us := by
  obtain ⟨cat, vs, e, n, hcat, hd⟩ := h
  exact ⟨cat, vs, e, n, hPQ cat hcat, hd⟩

theorem Begins.viable (h : Begins (· = .expression) us) : Viable us := by
  obtain ⟨_, vs, e, n, rfl, hd⟩ := h
  exact ⟨vs, e, n, hd⟩

theorem Begins.primary_nil : Begins (· = .primary) [] :=
  ⟨_, [⟨.word .nullWord, 0⟩], _, 0, rfl, .literal 0 rfl⟩

theorem Begins.suffixed (h : Begins (· = .primary) us) : Begins (∃ k, · = .suffixed k) us := by
  obtain ⟨_, vs, e, n, rfl, hd⟩ := h
  exact ⟨_, vs, e, n, ⟨0, rfl⟩, .primary hd⟩

theorem Begins.ofSuffixed (h : Begins (∃ k, · = .suffixed k) us) :
    Begins (Operand .multiplicative) us := by
  obtain ⟨_, vs, e, n, ⟨k, rfl⟩, hd⟩ := h
  exact ⟨.unary, vs, e, n, .multiplicative, .suffixed hd⟩

theorem Begins.unary (op : UnaryOp) (o : Nat) (h : Begins (Operand .multiplicative) us) :
    Begins (Operand .multiplicative) (⟨.symbol op.symbol, o⟩ :: us) := by
  obtain ⟨_, vs, e, n, ⟨⟩, hd⟩ := h
  exact ⟨.unary, vs, _, _, .multiplicative, .unary op o hd⟩

theorem Begins.single {p : Precedence} (h : Begins (Operand p) us) :
    Begins (∃ k, · = .chain p k) us := by
  obtain ⟨cat, vs, e, n, hcat, hd⟩ := h
  exact ⟨_, vs, e, n, ⟨0, rfl⟩, .single hcat hd⟩

theorem Begins.operator {p : Precedence} {op : BinaryOp} (a : Nat) (hop : op.precedence = p)
    (hx : Derives (.chain p k) ts x n) (h : Begins (Operand p) us) :
    Begins (∃ k, · = .chain p k) (ts ++ ⟨.symbol op.symbol, a⟩ :: us) := by
  obtain ⟨cat, vs, y, m, hcat, hy⟩ := h
  have hd := Derives.operator op a hop hx hcat hy
  exact ⟨_, vs, _, _, ⟨k + 1, rfl⟩, by simpa using hd⟩

theorem Begins.plain (h : Begins (∃ k, · = .chain .equality k) us) :
    Begins (· = .expression) us := by
  obtain ⟨_, vs, e, n, ⟨k, rfl⟩, hd⟩ := h
  exact ⟨_, vs, e, _, rfl, .plain hd⟩

theorem Begins.expression_nil : Begins (· = .expression) [] := by
  have step : ∀ {p q : Precedence}, (∀ k, Operand q (.chain p k)) → Begins (Operand p) [] →
      Begins (Operand q) [] :=
    fun hpq h => h.single.mono (by rintro _ ⟨k, rfl⟩; exact hpq k)
  have hm := Begins.primary_nil.suffixed.ofSuffixed
  exact (step .equality (step .relational (step .additive hm))).single.plain

theorem Begins.parens (a : Nat) (h : Begins (· = .expression) us) :
    Begins (· = .primary) (⟨.symbol .openParen, a⟩ :: us) := by
  obtain ⟨_, vs, e, n, rfl, hd⟩ := h
  refine ⟨_, vs ++ [⟨.symbol .closeParen, 0⟩], e, n, rfl, ?_⟩
  rw [List.cons_append, ← List.append_assoc]
  exact .parens a 0 hd

theorem Begins.array {o : Nat} (h : Begins (· = .arrayTail o) us) :
    Begins (· = .primary) (⟨.symbol .openBracket, o⟩ :: us) := by
  obtain ⟨_, vs, e, n, rfl, hd⟩ := h
  exact ⟨_, vs, e, n, rfl, .array o hd⟩

theorem Begins.last (o : Nat) (h : Begins (· = .expression) us) : Begins (· = .arrayTail o) us := by
  obtain ⟨_, vs, e, n, rfl, hd⟩ := h
  have hd' := Derives.last o 0 hd
  exact ⟨_, vs ++ [⟨.symbol .closeBracket, 0⟩], _, _, rfl, by simpa using hd'⟩

theorem Begins.item {o : Nat} (a : Nat) (hx : Derives .expression ts x n)
    (h : Begins (· = .arrayTail o) us) :
    Begins (· = .arrayTail o) (ts ++ ⟨.symbol .comma, a⟩ :: us) := by
  obtain ⟨_, vs, e, m, rfl, hd⟩ := h
  obtain ⟨es, rfl⟩ := hd.eq_array
  have hd' := Derives.item o a hx hd
  exact ⟨_, vs, _, _, rfl, by simpa using hd'⟩

theorem Begins.member (a : Nat) (hx : Derives (.suffixed k) ts x n) :
    Begins (∃ k, · = .suffixed k) (ts ++ [⟨.symbol .dot, a⟩]) := by
  have hd := Derives.member (t := ⟨.word .nullWord, 0⟩) a hx rfl
  exact ⟨_, [⟨.word .nullWord, 0⟩], _, _, ⟨k + 1, rfl⟩, by simpa using hd⟩

theorem Begins.index (a : Nat) (hx : Derives (.suffixed k) ts x n)
    (h : Begins (· = .expression) us) :
    Begins (∃ k, · = .suffixed k) (ts ++ ⟨.symbol .openBracket, a⟩ :: us) := by
  obtain ⟨_, vs, key, m, rfl, hd⟩ := h
  have hd' := Derives.index a 0 hx hd
  exact ⟨_, vs ++ [⟨.symbol .closeBracket, 0⟩], _, _, ⟨k + 1, rfl⟩, by simpa using hd'⟩

theorem Begins.call {o : Nat} {s : String} (a : Nat) (h : Callee o s ts n) :
    Begins (∃ k, · = .suffixed k) (ts ++ [⟨.symbol .openParen, a⟩]) := by
  have hd := Derives.call a 0 h
  exact ⟨_, [⟨.symbol .closeParen, 0⟩], _, _, ⟨1, rfl⟩, by simpa using hd⟩

theorem Begins.yes (a : Nat) (hp : Derives (.chain .equality k) ts x n)
    (h : Begins (· = .expression) us) :
    Begins (· = .expression) (ts ++ ⟨.symbol .question, a⟩ :: us) := by
  obtain ⟨_, vs, yes, m, rfl, hy⟩ := h
  obtain ⟨_, ws, no, l, rfl, hn⟩ := Begins.expression_nil
  have hd := Derives.ternary a 0 hp hy hn
  exact ⟨_, vs ++ ⟨.symbol .colon, 0⟩ :: ws, _, _, rfl, by simpa using hd⟩

theorem Begins.no (a b : Nat) (hp : Derives (.chain .equality k) ts x n)
    (hy : Derives .expression us y m) (h : Begins (· = .expression) vs) :
    Begins (· = .expression)
      (ts ++ ⟨.symbol .question, a⟩ :: (us ++ ⟨.symbol .colon, b⟩ :: vs)) := by
  obtain ⟨_, ws, no, l, rfl, hn⟩ := h
  have hd := Derives.ternary a b hp hy hn
  exact ⟨_, ws, _, _, rfl, by simpa using hd⟩

end TemplateExpr.Grammar
