import TemplateExpr.Proofs.Nesting.Height
import TemplateExpr.Proofs.Token.Spaced

namespace TemplateExpr.Grammar

section

variable {c c' : Category} {p : Precedence} {k n m l h x y : Nat} {t : Token}
  {ts us vs : List Token}

theorem map_token_eq_cons {ls : List Located} : ls.map (·.token) = t :: ts ↔
    ∃ o rest, ls = ⟨t, o⟩ :: rest ∧ rest.map (·.token) = ts := by
  constructor
  · intro h
    obtain ⟨⟨_, o⟩, rest, rfl, rfl, hrest⟩ := List.map_eq_cons_iff.1 h
    exact ⟨o, rest, rfl, hrest⟩
  · rintro ⟨o, rest, rfl, rfl⟩
    rfl

def Reaches (c : Category) (n h : Nat) (ts : List Token) : Prop :=
  ∀ ls : List Located, ls.map (·.token) = ts → ∃ e, Derives c ls e n ∧ e.height = h

theorem Reaches.lift (hr : Reaches c n h ts)
    (hl : ∀ {ls e}, Derives c ls e n → Derives c' ls e m) : Reaches c' m h ts := by
  intro ls hls
  obtain ⟨e, hd, hh⟩ := hr ls hls
  exact ⟨e, hl hd, hh⟩

theorem reaches_name (s : String) : Reaches .unary 0 1 [.name s] := by
  intro ls hls
  obtain ⟨o, rest, rfl, hrest⟩ := map_token_eq_cons.1 hls
  obtain rfl := List.map_eq_nil_iff.1 hrest
  exact ⟨_, .suffixed (.primary (.name o s)), by rw [Expr.height]⟩

theorem reaches_name_chain (s : String) (p : Precedence) : Reaches (.chain p 0) 0 1 [.name s] := by
  have hmul := (reaches_name s).lift (.single .multiplicative)
  have hadd := hmul.lift (.single (.additive 0))
  have hrel := hadd.lift (.single (.relational 0))
  cases p with
  | equality => exact hrel.lift (.single (.equality 0))
  | relational => exact hrel
  | additive => exact hadd
  | multiplicative => exact hmul

theorem Reaches.brackets (hr : Reaches .expression n h ts) :
    Reaches .primary n (h + 1) (.symbol .openBracket :: (ts ++ [.symbol .closeBracket])) := by
  intro ls hls
  obtain ⟨a, rest, rfl, hrest⟩ := map_token_eq_cons.1 hls
  obtain ⟨es, bs, rfl, hes, hbs⟩ := List.map_eq_append_iff.1 hrest
  obtain ⟨b, tail, rfl, htail⟩ := map_token_eq_cons.1 hbs
  obtain rfl := List.map_eq_nil_iff.1 htail
  obtain ⟨e, hd, rfl⟩ := hr es hes
  refine ⟨.array a [e], .array a (.last a b hd), ?_⟩
  simp only [Expr.height, Expr.itemsHeight, Nat.max_zero]

theorem Reaches.member (hr : Reaches (.suffixed k) n h ts) (s : String) :
    Reaches (.suffixed (k + 1)) (max n (k + 1)) (h + 1) (ts ++ [.symbol .dot, .name s]) := by
  intro ls hls
  obtain ⟨os, rest, rfl, hos, hrest⟩ := List.map_eq_append_iff.1 hls
  obtain ⟨a, ns, rfl, hns⟩ := map_token_eq_cons.1 hrest
  obtain ⟨o, tail, rfl, htail⟩ := map_token_eq_cons.1 hns
  obtain rfl := List.map_eq_nil_iff.1 htail
  obtain ⟨e, hd, rfl⟩ := hr os hos
  exact ⟨.member e.offset e s, .member a hd rfl, by rw [Expr.height]⟩

theorem Reaches.operator (op : BinaryOp) (hx : Reaches (.chain op.precedence k) n x ts)
    (hc : Operand op.precedence c) (hy : Reaches c m y us) :
    Reaches (.chain op.precedence (k + 1)) (max n (k + 1 + m)) (max x y + 1)
      (ts ++ .symbol op.symbol :: us) := by
  intro ls hls
  obtain ⟨xs, rest, rfl, hxs, hrest⟩ := List.map_eq_append_iff.1 hls
  obtain ⟨a, ys, rfl, hys⟩ := map_token_eq_cons.1 hrest
  obtain ⟨l, hl, rfl⟩ := hx xs hxs
  obtain ⟨r, hr, rfl⟩ := hy ys hys
  exact ⟨.binary l.offset op l r, .operator op a rfl hl hc hr, by rw [Expr.height]⟩

theorem Reaches.ternary (hp : Reaches (.chain .equality k) n h ts)
    (hy : Reaches .expression m x us) (hn : Reaches .expression l y vs) :
    Reaches .expression (max n (max m l) + 1) (max h (max x y) + 1)
      (ts ++ .symbol .question :: (us ++ .symbol .colon :: vs)) := by
  intro ls hls
  obtain ⟨ps, rest, rfl, hps, hrest⟩ := List.map_eq_append_iff.1 hls
  obtain ⟨a, branches, rfl, hbranches⟩ := map_token_eq_cons.1 hrest
  obtain ⟨ys, rest, rfl, hys, hrest⟩ := List.map_eq_append_iff.1 hbranches
  obtain ⟨b, ns, rfl, hns⟩ := map_token_eq_cons.1 hrest
  obtain ⟨e, he, rfl⟩ := hp ps hps
  obtain ⟨yes, hyes, rfl⟩ := hy ys hys
  obtain ⟨no, hno, rfl⟩ := hn ns hns
  exact ⟨.ternary e.offset e yes no, .ternary a b he hyes hno, by rw [Expr.height]⟩

def repeated (ts : List Token) (k : Nat) : List Token :=
  (List.replicate k ts).flatten

theorem repeated_succ (ts : List Token) (k : Nat) : repeated ts (k + 1) = repeated ts k ++ ts := by
  simp [repeated, List.replicate_succ']

theorem mem_of_mem_repeated (h : t ∈ repeated ts k) : t ∈ ts := by
  obtain ⟨us, hus, ht⟩ := List.mem_flatten.1 h
  rwa [List.eq_of_mem_replicate hus] at ht

theorem Reaches.members (hr : Reaches (.suffixed 0) n h ts) (s : String) (hk : k ≤ n) :
    Reaches (.suffixed k) n (h + k) (ts ++ repeated [.symbol .dot, .name s] k) := by
  induction k with
  | zero => simpa [repeated] using hr
  | succ k ih =>
      have hm := (ih (Nat.le_of_succ_le hk)).member s
      rwa [Nat.max_eq_left hk, List.append_assoc, ← repeated_succ] at hm

theorem Reaches.operators (op : BinaryOp) (hx : Reaches c n h ts) (hc : Operand op.precedence c)
    (hy : Reaches c' 0 1 us) (hc' : Operand op.precedence c') (hpos : 0 < h) (hk : k ≤ n) :
    Reaches (.chain op.precedence k) n (h + k) (ts ++ repeated (.symbol op.symbol :: us) k) := by
  induction k with
  | zero => simpa [repeated] using hx.lift (.single hc)
  | succ k ih =>
      have ho := Reaches.operator op (ih (Nat.le_of_succ_le hk)) hc' hy
      rwa [Nat.max_eq_left (by omega), Nat.max_eq_left (by omega), List.append_assoc,
        ← repeated_succ] at ho

def nest (n : Nat) (ts : List Token) : List Token :=
  .symbol .openBracket :: (ts ++ [.symbol .closeBracket]) ++ repeated [.symbol .dot, .name "b"] n
    ++ repeated [.symbol .star, .name "a"] n ++ repeated [.symbol .plus, .name "a"] n
    ++ repeated [.symbol .less, .name "a"] n ++ repeated [.symbol .strictEqual, .name "a"] n
    ++ [.symbol .question, .name "a", .symbol .colon, .name "a"]

def highest : Nat → List Token
  | 0 => [.name "a"]
  | n + 1 => nest (n + 1) (highest n)

theorem Reaches.nest (hr : Reaches .expression n h ts) (hn : 0 < n) :
    Reaches .expression (n + 1) (h + 5 * n + 2) (nest n ts) := by
  have hname := reaches_name_chain "a"
  have hbranch := (hname .equality).lift .plain
  have hmembers := ((hr.brackets.lift .primary).members "b" (Nat.le_refl n)).lift .suffixed
  have hproduct := hmembers.operators .mul .multiplicative (reaches_name "a") .multiplicative
    (by omega) (Nat.le_refl n)
  have hsum := hproduct.operators .add (.additive n) (hname .multiplicative) (.additive 0)
    (by omega) (Nat.le_refl n)
  have hless := hsum.operators .lt (.relational n) (hname .additive) (.relational 0)
    (by omega) (Nat.le_refl n)
  have hequal := hless.operators .strictEq (.equality n) (hname .relational) (.equality 0)
    (by omega) (Nat.le_refl n)
  have ht := hequal.ternary hbranch hbranch
  rwa [Nat.max_eq_left (by omega), Nat.max_eq_left (by omega),
    (by omega : h + 1 + n + n + n + n + n + 1 = h + 5 * n + 2)] at ht

theorem reaches_highest (n : Nat) :
    Reaches .expression (n + 1) (maxHeight (n + 1)) (highest n) := by
  induction n with
  | zero => exact (reaches_name_chain "a" .equality).lift .plain
  | succ n ih =>
      rw [maxHeight_succ (Nat.succ_pos n)]
      exact ih.nest (Nat.succ_pos n)

end

theorem spelled_nest (n : Nat) {ts : List Token} (h : ∀ t ∈ ts, t.Spelled) :
    ∀ t ∈ nest n ts, t.Spelled := by
  have ha : Token.IsName "a" := by decide
  have hb : Token.IsName "b" := by decide
  have hpair (s : Symbol) {name : String} (hname : Token.IsName name) :
      ∀ t ∈ repeated [.symbol s, .name name] n, t.Spelled := by
    intro t ht
    have ht := mem_of_mem_repeated ht
    simp only [List.mem_cons, List.not_mem_nil, or_false] at ht
    rcases ht with rfl | rfl
    · trivial
    · exact hname
  have harray : ∀ t ∈ Token.symbol .openBracket :: (ts ++ [.symbol .closeBracket]), t.Spelled := by
    simp only [List.forall_mem_append, List.forall_mem_cons]
    exact ⟨trivial, h, trivial, List.forall_mem_nil _⟩
  have hbranches : ∀ t ∈ [Token.symbol .question, .name "a", .symbol .colon, .name "a"],
      t.Spelled := by
    simp only [List.forall_mem_cons]
    exact ⟨trivial, ha, trivial, ha, List.forall_mem_nil _⟩
  simp only [nest, List.forall_mem_append]
  exact ⟨⟨⟨⟨⟨⟨harray, hpair _ hb⟩, hpair _ ha⟩, hpair _ ha⟩, hpair _ ha⟩, hpair _ ha⟩, hbranches⟩

theorem spelled_highest (n : Nat) : ∀ t ∈ highest n, t.Spelled := by
  induction n with
  | zero =>
      have ha : Token.IsName "a" := by decide
      intro t ht
      rwa [List.mem_singleton.1 ht]
  | succ n ih => exact spelled_nest (n + 1) ih

theorem upToStop_located (offset : Nat) {ts : List Token} (h : ∀ t ∈ ts, t.Spelled) :
    (upToStop (Token.located offset ts)).map (·.token) = ts := by
  induction ts generalizing offset with
  | nil => rfl
  | cons t ts ih =>
      have ht : t ≠ .stop := by
        rintro rfl
        exact h .stop (List.mem_cons_self ..)
      have ih := ih (offset + Text.size t.spelling + 1) fun u hu => h u (List.mem_cons_of_mem _ hu)
      simp only [upToStop] at ih
      simp only [upToStop, Token.located, ne_eq, ht, not_false_eq_true, decide_true,
        List.takeWhile_cons_of_pos, List.map_cons, ih]

def highestSource (n : Nat) : String :=
  String.ofList (Token.spaced (highest n))

theorem parse_highestSource (n : Nat) :
    ∃ e, Expr.parse (n + 1) (highestSource n) = .ok e ∧ e.height = maxHeight (n + 1) := by
  have hscan := Token.scan_spaced (spelled_highest n)
  obtain ⟨e, hd, hh⟩ := reaches_highest n _ (upToStop_located 0 (spelled_highest n))
  refine ⟨e, ?_, hh⟩
  rw [Expr.parse, highestSource, hscan]
  exact ofTokens_of_derives (Nat.le_refl _) hd

end TemplateExpr.Grammar
