import TemplateExpr.Expr.Rule

namespace TemplateExpr

inductive Precedence where
  | equality
  | relational
  | additive
  | multiplicative
  deriving DecidableEq

def BinaryOp.precedence : BinaryOp → Precedence
  | .strictEq => .equality
  | .strictNe => .equality
  | .lt => .relational
  | .le => .relational
  | .gt => .relational
  | .ge => .relational
  | .add => .additive
  | .sub => .additive
  | .mul => .multiplicative
  | .div => .multiplicative

def Precedence.operator? : Precedence → Token → Option BinaryOp
  | .equality => Rule.equality?
  | .relational => Rule.relational?
  | .additive => Rule.additive?
  | .multiplicative => Rule.multiplicative?

theorem Precedence.operator?_eq_some {p : Precedence} {t : Token} {op : BinaryOp} :
    p.operator? t = some op ↔ t = .symbol op.symbol ∧ op.precedence = p := by
  constructor
  · intro h
    cases p <;> simp only [operator?] at h
    case equality => unfold Rule.equality? at h; split at h <;> cases h <;> exact ⟨rfl, rfl⟩
    case relational => unfold Rule.relational? at h; split at h <;> cases h <;> exact ⟨rfl, rfl⟩
    case additive => unfold Rule.additive? at h; split at h <;> cases h <;> exact ⟨rfl, rfl⟩
    case multiplicative =>
      unfold Rule.multiplicative? at h; split at h <;> cases h <;> exact ⟨rfl, rfl⟩
  · rintro ⟨rfl, rfl⟩
    cases op <;> rfl

theorem unaryOp?_eq_some {t : Token} {op : UnaryOp} :
    Rule.unaryOp? t = some op ↔ t = .symbol op.symbol := by
  constructor
  · intro h
    unfold Rule.unaryOp? at h
    split at h <;> cases h <;> rfl
  · rintro rfl
    cases op <;> rfl

def Token.literal? : Token → Option Literal
  | .number x => some (.ofDouble x)
  | .text s => some (.text s)
  | .word w => some (.ofKeyword w)
  | _ => none

def Token.propertyName? : Token → Option String
  | .name s => some s
  | .word w => some w.spelling
  | _ => none

namespace Grammar

/-- The syntactic categories. A chain is named with the number of its operators, a suffixed
expression with the number of its suffixes, and the rest of an array with the offset at which the
array opens. -/
inductive Category where
  | expression
  | chain (p : Precedence) (operators : Nat)
  | unary
  | suffixed (suffixes : Nat)
  | primary
  | arrayTail (offset : Nat)

inductive Operand : Precedence → Category → Prop
  | equality (k : Nat) : Operand .equality (.chain .relational k)
  | relational (k : Nat) : Operand .relational (.chain .additive k)
  | additive (k : Nat) : Operand .additive (.chain .multiplicative k)
  | multiplicative : Operand .multiplicative .unary

-- A name in any number of parentheses, which is all that can be called.
inductive Callee (o : Nat) (s : String) : List Located → Nat → Prop
  | bare : Callee o s [⟨.name s, o⟩] 0
  | parens {ts n} (a b : Nat) : Callee o s ts n →
      Callee o s (⟨.symbol .openParen, a⟩ :: (ts ++ [⟨.symbol .closeParen, b⟩])) (n + 1)

/-- The tokens of a category with their tree and their demand of nesting levels. A whole
expression, in parentheses, brackets or a branch too, is one level deeper than where it stands, and
so is the operand of a unary operator; the right operand of the k-th operator of a chain is k levels
deeper, and so is what the k-th suffix of an expression holds. -/
inductive Derives : Category → List Located → Expr → Nat → Prop
  | plain {k ts e n} : Derives (.chain .equality k) ts e n → Derives .expression ts e (n + 1)
  | ternary {k ts us vs p yes no n m l} (a b : Nat) : Derives (.chain .equality k) ts p n →
      Derives .expression us yes m → Derives .expression vs no l →
      Derives .expression
        (ts ++ ⟨.symbol .question, a⟩ :: (us ++ ⟨.symbol .colon, b⟩ :: vs))
        (.ternary p.offset p yes no) (max n (max m l) + 1)
  | single {p c ts e n} : Operand p c → Derives c ts e n → Derives (.chain p 0) ts e n
  | operator {p k c ts us x y n m} (op : BinaryOp) (a : Nat) : op.precedence = p →
      Derives (.chain p k) ts x n → Operand p c → Derives c us y m →
      Derives (.chain p (k + 1)) (ts ++ ⟨.symbol op.symbol, a⟩ :: us) (.binary x.offset op x y)
        (max n (k + 1 + m))
  | suffixed {k ts e n} : Derives (.suffixed k) ts e n → Derives .unary ts e n
  | unary {ts e n} (op : UnaryOp) (o : Nat) : Derives .unary ts e n →
      Derives .unary (⟨.symbol op.symbol, o⟩ :: ts) (.unary o op e) (n + 1)
  | primary {ts e n} : Derives .primary ts e n → Derives (.suffixed 0) ts e n
  | member {k ts e n t name} (a : Nat) : Derives (.suffixed k) ts e n →
      t.token.propertyName? = some name →
      Derives (.suffixed (k + 1)) (ts ++ [⟨.symbol .dot, a⟩, t]) (.member e.offset e name)
        (max n (k + 1))
  | index {k ts us e key n m} (a b : Nat) : Derives (.suffixed k) ts e n →
      Derives .expression us key m →
      Derives (.suffixed (k + 1))
        (ts ++ ⟨.symbol .openBracket, a⟩ :: (us ++ [⟨.symbol .closeBracket, b⟩]))
        (.index e.offset e key) (max n (k + 1 + m))
  | call {ts o s n} (a b : Nat) : Callee o s ts n →
      Derives (.suffixed 1) (ts ++ [⟨.symbol .openParen, a⟩, ⟨.symbol .closeParen, b⟩])
        (.call o s) (max n 1)
  | literal {t l} (o : Nat) : Token.literal? t = some l → Derives .primary [⟨t, o⟩] (.literal o l) 0
  | name (o : Nat) (s : String) : Derives .primary [⟨.name s, o⟩] (.name o s) 0
  | parens {ts e n} (a b : Nat) : Derives .expression ts e n →
      Derives .primary (⟨.symbol .openParen, a⟩ :: (ts ++ [⟨.symbol .closeParen, b⟩])) e n
  | array {ts e n} (o : Nat) : Derives (.arrayTail o) ts e n →
      Derives .primary (⟨.symbol .openBracket, o⟩ :: ts) e n
  | close (o b : Nat) : Derives (.arrayTail o) [⟨.symbol .closeBracket, b⟩] (.array o []) 0
  | last {ts e n} (o b : Nat) : Derives .expression ts e n →
      Derives (.arrayTail o) (ts ++ [⟨.symbol .closeBracket, b⟩]) (.array o [e]) n
  | item {ts us e es n m} (o a : Nat) : Derives .expression ts e n →
      Derives (.arrayTail o) us (.array o es) m →
      Derives (.arrayTail o) (ts ++ ⟨.symbol .comma, a⟩ :: us) (.array o (e :: es)) (max n m)

theorem Callee.ne_nil {o : Nat} {s : String} {ts : List Located} {n : Nat}
    (h : Callee o s ts n) : ts ≠ [] := by
  cases h <;> simp

theorem Callee.token_ne_stop {o : Nat} {s : String} {ts : List Located} {n : Nat}
    (h : Callee o s ts n) : ∀ t ∈ ts, t.token ≠ .stop := by
  induction h with
  | bare => simp
  | parens a b _ ih => grind

theorem Derives.ofPrimary {ts : List Located} {e : Expr} {n : Nat} (h : Derives .primary ts e n) :
    Derives .expression ts e (n + 1) := by
  have hm := Derives.single .multiplicative (.suffixed (.primary h))
  have ha := Derives.single (.additive 0) hm
  have hr := Derives.single (.relational 0) ha
  exact .plain (.single (.equality 0) hr)

theorem Callee.derives {o : Nat} {s : String} {ts : List Located} {n : Nat}
    (h : Callee o s ts n) : Derives .primary ts (.name o s) n := by
  induction h with
  | bare => exact .name o s
  | parens a b _ ih => exact .parens a b ih.ofPrimary

theorem Derives.ne_nil {c : Category} {ts : List Located} {e : Expr} {n : Nat}
    (h : Derives c ts e n) : ts ≠ [] := by
  induction h <;> simp_all

theorem Derives.token_ne_stop {c : Category} {ts : List Located} {e : Expr} {n : Nat}
    (h : Derives c ts e n) : ∀ t ∈ ts, t.token ≠ .stop := by
  induction h with
  | @member _ _ _ _ u _ a _ ht ih =>
      have hu : u.token ≠ .stop := by
        intro hs
        simp [hs, Token.propertyName?] at ht
      grind
  | @literal t _ o hl =>
      have ht : t ≠ .stop := by
        intro hs
        simp [hs, Token.literal?] at hl
      grind
  | call a b hc =>
      have := hc.token_ne_stop
      grind
  | _ => grind

theorem Derives.eq_array {o : Nat} {ts : List Located} {e : Expr} {n : Nat}
    (h : Derives (.arrayTail o) ts e n) : ∃ items, e = .array o items := by
  cases h <;> exact ⟨_, rfl⟩

end Grammar

end TemplateExpr
