import TemplateExpr.Proofs.Grammar.Complete
import TemplateExpr.Proofs.Token.Layout

namespace TemplateExpr

open Token (IsName)

def Literal.token? : Literal → Option Token
  | .undefined => some (.word .undefinedWord)
  | .null => some (.word .nullWord)
  | .boolean true => some (.word .trueWord)
  | .boolean false => some (.word .falseWord)
  | .number (.integer (.ofNat n)) => if n < Nat.pow 2 53 then some (.number (.ofInt n)) else none
  | .number _ => none
  | .text s => some (.text s)

def IsProperty (p : String) (t : Token) : Prop :=
  t = .name p ∧ IsName p ∨ ∃ w : Keyword, t = .word w ∧ w.spelling = p

inductive Printable : Expr → Prop
  | literal {v t} (o : Nat) : v.token? = some t → Printable (.literal o v)
  | name {s} (o : Nat) : IsName s → Printable (.name o s)
  | member {e p t} (o : Nat) : Printable e → IsProperty p t → Printable (.member o e p)
  | index {e key} (o : Nat) : Printable e → Printable key → Printable (.index o e key)
  | unary {e} (o : Nat) (op : UnaryOp) : Printable e → Printable (.unary o op e)
  | binary {x y} (o : Nat) (op : BinaryOp) : Printable x → Printable y →
      Printable (.binary o op x y)
  | ternary {p yes no} (o : Nat) : Printable p → Printable yes → Printable no →
      Printable (.ternary o p yes no)
  | array {items} (o : Nat) : (∀ e ∈ items, Printable e) → Printable (.array o items)
  | call {s} (o : Nat) : IsName s → Printable (.call o s)

-- A tree as tokens at a place that asks for some tightness: 1 is a whole expression, 2 to 5 are the
-- places around binary operators, 6 is behind a unary operator, 7 before a suffix and 8 alone. What
-- is tight enough for a place needs no parentheses there; at 0 an array is printed behind its
-- bracket.
inductive Prints : Nat → Expr → List Token → Prop
  | literal {v t} (o : Nat) : v.token? = some t → Prints 8 (.literal o v) [t]
  | name {s} (o : Nat) : IsName s → Prints 8 (.name o s) [.name s]
  | parens {e ts} : Prints 1 e ts →
      Prints 8 e (.symbol .openParen :: (ts ++ [.symbol .closeParen]))
  | array {o items ts} : Prints 0 (.array o items) ts →
      Prints 8 (.array o items) (.symbol .openBracket :: ts)
  | close (o : Nat) : Prints 0 (.array o []) [.symbol .closeBracket]
  | last {e ts} (o : Nat) : Prints 1 e ts → Prints 0 (.array o [e]) (ts ++ [.symbol .closeBracket])
  | item {o e es ts us} : Prints 1 e ts → Prints 0 (.array o es) us →
      Prints 0 (.array o (e :: es)) (ts ++ .symbol .comma :: us)
  | call {o s ts} : Prints 8 (.name o s) ts →
      Prints 7 (.call o s) (ts ++ [.symbol .openParen, .symbol .closeParen])
  | member {e p ts t} (o : Nat) : Prints 7 e ts → IsProperty p t →
      Prints 7 (.member o e p) (ts ++ [.symbol .dot, t])
  | index {e key ts us} (o : Nat) : Prints 7 e ts → Prints 1 key us →
      Prints 7 (.index o e key) (ts ++ .symbol .openBracket :: (us ++ [.symbol .closeBracket]))
  | unary {e ts} (o : Nat) (op : UnaryOp) : Prints 6 e ts →
      Prints 6 (.unary o op e) (.symbol op.symbol :: ts)
  | binary {x y ts us} (o : Nat) (op : BinaryOp) : Prints op.precedence.tightness x ts →
      Prints (op.precedence.tightness + 1) y us →
      Prints op.precedence.tightness (.binary o op x y) (ts ++ .symbol op.symbol :: us)
  | ternary {p yes no ts us vs} (o : Nat) : Prints 2 p ts → Prints 1 yes us → Prints 1 no vs →
      Prints 1 (.ternary o p yes no)
        (ts ++ .symbol .question :: (us ++ .symbol .colon :: vs))
  | loosen {l e ts} : 0 < l → Prints (l + 1) e ts → Prints l e ts

def Expr.Printing (e : Expr) (text : String) : Prop :=
  ∃ ts, Prints 1 e ts ∧ Token.Layout ts text.toList

theorem Literal.literal?_of_token? {v : Literal} {t : Token} (h : v.token? = some t) :
    t.literal? = some v := by
  unfold token? at h
  split at h
  case h_5 =>
    split at h <;> cases h
    rename_i hn
    exact congrArg some (ofDouble_natCast hn)
  case h_6 => cases h
  all_goals cases h; rfl

section

variable {e : Expr} {ts us : List Token} {l : Nat}

theorem Prints.loosen_of_le {m : Nat} (h : Prints m e ts) (hl : 0 < l) (hm : l ≤ m) :
    Prints l e ts := by
  induction hm with
  | refl => exact h
  | step hle ih => exact ih (.loosen (Nat.lt_of_lt_of_le hl hle) h)

theorem Prints.parenthesized (h : Prints 1 e ts) (hl : 0 < l) (hl' : l ≤ 8) :
    Prints l e (.symbol .openParen :: (ts ++ [.symbol .closeParen])) :=
  h.parens.loosen_of_le hl hl'

theorem exists_prints_items (o : Nat) {items : List Expr}
    (h : ∀ e ∈ items, ∃ ts, Prints 1 e ts) : ∃ ts, Prints 0 (.array o items) ts := by
  induction items with
  | nil => exact ⟨_, .close o⟩
  | cons e es ih =>
      obtain ⟨ts, h₁⟩ := h e List.mem_cons_self
      obtain ⟨us, hs⟩ := ih fun x hx => h x (List.mem_cons_of_mem _ hx)
      exact ⟨_, .item h₁ hs⟩

theorem exists_prints (h : Printable e) : ∃ ts, Prints 1 e ts := by
  induction h with
  | literal o hv => exact ⟨_, (Prints.literal o hv).loosen_of_le (by decide) (by decide)⟩
  | name o hs => exact ⟨_, (Prints.name o hs).loosen_of_le (by decide) (by decide)⟩
  | member o _ hp ih =>
      obtain ⟨ts, h⟩ := ih
      have he := h.parenthesized (l := 7) (by decide) (by decide)
      exact ⟨_, (Prints.member o he hp).loosen_of_le (by decide) (by decide)⟩
  | index o _ _ ih ihk =>
      obtain ⟨ts, h⟩ := ih
      obtain ⟨us, hk⟩ := ihk
      have he := h.parenthesized (l := 7) (by decide) (by decide)
      exact ⟨_, (Prints.index o he hk).loosen_of_le (by decide) (by decide)⟩
  | unary o op _ ih =>
      obtain ⟨ts, h⟩ := ih
      have he := h.parenthesized (l := 6) (by decide) (by decide)
      exact ⟨_, (Prints.unary o op he).loosen_of_le (by decide) (by decide)⟩
  | binary o op _ _ ihx ihy =>
      obtain ⟨ts, hx⟩ := ihx
      obtain ⟨us, hy⟩ := ihy
      have hp : 0 < op.precedence.tightness ∧ op.precedence.tightness < 8 := by
        cases op.precedence <;> decide
      exact ⟨_, (Prints.binary o op (hx.parenthesized hp.1 (Nat.le_of_lt hp.2))
        (hy.parenthesized (Nat.succ_pos _) hp.2)).loosen_of_le (by decide) hp.1⟩
  | ternary o _ _ _ ihp ihy ihn =>
      obtain ⟨ts, hp⟩ := ihp
      obtain ⟨us, hy⟩ := ihy
      obtain ⟨vs, hn⟩ := ihn
      exact ⟨_, .ternary o (hp.parenthesized (by decide) (by decide)) hy hn⟩
  | array o _ ih =>
      obtain ⟨ts, h⟩ := exists_prints_items o ih
      exact ⟨_, h.array.loosen_of_le (by decide) (by decide)⟩
  | call o hs => exact ⟨_, (Prints.name o hs).call.loosen_of_le (by decide) (by decide)⟩

end

structure Compact (ts : List Token) : Prop where
  ne_nil : ts ≠ []
  chain : ts.IsChain Token.Adjoins
  head : ∀ t ∈ ts.head?, t ≠ .symbol .strictEqual
  last : ∀ t ∈ ts.getLast?, t ∉ [.symbol .bang, .symbol .less, .symbol .greater]
  spells : ∀ t ∈ ts, ∃ cs, Token.Spells t cs

namespace Compact

variable {ts us : List Token} {s : Symbol}

theorem symbol_adjoins {u : Token} (hdot : s = .dot → ∀ x, u ≠ .number x)
    (hu : u ≠ .symbol .strictEqual) : Token.Adjoins (.symbol s) u :=
  ⟨nofun, fun h => hdot (by cases h; rfl), fun _ => hu⟩

theorem adjoins_symbol {t : Token} (ht : t ∉ [.symbol .bang, .symbol .less, .symbol .greater]) :
    Token.Adjoins t (.symbol s) :=
  ⟨fun _ => rfl, fun _ _ => nofun, fun h => (ht h).elim⟩

theorem single {t : Token} {cs : List Char} (hcs : Token.Spells t cs)
    (ht : t ∉ [.symbol .strictEqual, .symbol .bang, .symbol .less, .symbol .greater]) :
    Compact [t] where
  ne_nil := by simp
  chain := .singleton t
  head := by simpa using List.ne_of_not_mem_cons ht
  last := by simpa using List.not_mem_of_not_mem_cons ht
  spells := by simpa using ⟨cs, hcs⟩

theorem cons (h : Compact ts) (hdot : s ≠ .dot) (heq : s ≠ .strictEqual) :
    Compact (.symbol s :: ts) where
  ne_nil := by simp
  chain := List.isChain_cons.2 ⟨fun u hu => symbol_adjoins (fun hs => (hdot hs).elim) (h.head u hu),
    h.chain⟩
  head := by simpa using heq
  last := by
    rw [List.getLast?_cons_of_ne_nil h.ne_nil]
    exact h.last
  spells := List.forall_mem_cons.2 ⟨⟨_, .symbol s⟩, h.spells⟩

theorem concat (h : Compact ts) (hs : s ∉ [.bang, .less, .greater]) :
    Compact (ts ++ [.symbol s]) where
  ne_nil := by simp
  chain := by
    refine List.isChain_append.2 ⟨h.chain, .singleton _, fun t ht u hu => ?_⟩
    obtain rfl : .symbol s = u := by simpa using hu
    exact adjoins_symbol (h.last t ht)
  head := by
    rw [List.head?_append_of_ne_nil _ h.ne_nil]
    exact h.head
  last := by
    simpa [List.getLast?_append] using hs
  spells := by
    simpa [or_imp, forall_and] using ⟨h.spells, ⟨_, Token.Spells.symbol s⟩⟩

theorem append (hts : Compact ts) (hus : Compact us)
    (hdot : s = .dot → ∀ u ∈ us.head?, ∀ x, u ≠ .number x) :
    Compact (ts ++ .symbol s :: us) where
  ne_nil := by simp
  chain := by
    refine List.isChain_append.2 ⟨hts.chain, ?_, fun t ht u hu => ?_⟩
    · exact List.isChain_cons.2
        ⟨fun u hu => symbol_adjoins (fun hs => hdot hs u hu) (hus.head u hu), hus.chain⟩
    · obtain rfl : .symbol s = u := by simpa using hu
      exact adjoins_symbol (hts.last t ht)
  head := by
    rw [List.head?_append_of_ne_nil _ hts.ne_nil]
    exact hts.head
  last := by
    rw [List.getLast?_append_of_ne_nil _ (by simp), List.getLast?_cons_of_ne_nil hus.ne_nil]
    exact hus.last
  spells := by
    intro t ht
    rcases List.mem_append.1 ht with ht | ht
    · exact hts.spells t ht
    · exact List.forall_mem_cons.2 ⟨⟨_, .symbol s⟩, hus.spells⟩ t ht

theorem of_token? {v : Literal} {t : Token} (h : v.token? = some t) : Compact [t] := by
  unfold Literal.token? at h
  split at h
  case h_5 =>
    split at h <;> cases h
    rename_i hn
    exact single (.number hn) (by simp)
  case h_6 => cases h
  case h_7 s =>
    cases h
    obtain ⟨ds, hds⟩ := Token.exists_quotes (.inl rfl) s.toList
    have hspells := Token.Spells.text (.inl rfl) hds
    rw [String.ofList_toList] at hspells
    exact single hspells (by simp)
  all_goals cases h; exact single (.word _) (by simp)

theorem of_isProperty {p : String} {t : Token} (h : IsProperty p t) : Compact [t] := by
  rcases h with ⟨rfl, hp⟩ | ⟨w, rfl, -⟩
  · exact single (.name hp) (by simp)
  · exact single (.word w) (by simp)

end Compact

theorem IsProperty.propertyName? {p : String} {t : Token} (h : IsProperty p t) :
    t.propertyName? = some p := by
  rcases h with ⟨rfl, -⟩ | ⟨w, rfl, rfl⟩ <;> rfl

theorem Prints.compact {l : Nat} {e : Expr} {ts : List Token} (h : Prints l e ts) : Compact ts := by
  induction h with
  | literal o hv => exact .of_token? hv
  | name o hs => exact .single (.name hs) (by simp)
  | parens _ ih => exact (ih.concat (by decide)).cons (by decide) (by decide)
  | array _ ih => exact ih.cons (by decide) (by decide)
  | close o => exact .single (.symbol _) (by simp)
  | last o _ ih => exact ih.concat (by decide)
  | item _ _ ih ihs => exact ih.append ihs nofun
  | @call o s ts _ ih =>
      have h := (ih.concat (s := .openParen) (by decide)).concat (s := .closeParen) (by decide)
      simpa using h
  | member o _ hp ih =>
      refine ih.append (.of_isProperty hp) ?_
      rintro - _ ⟨⟩ x rfl
      cases hp.propertyName?
  | index o _ _ ih ihk => exact ih.append (ihk.concat (by decide)) nofun
  | unary o op _ ih => exact ih.cons (by cases op <;> decide) (by cases op <;> decide)
  | binary o op _ _ ihx ihy => exact ihx.append ihy (by cases op <;> nofun)
  | ternary o _ _ _ ihp ihy ihn => exact ihp.append (ihy.append ihn nofun) nofun
  | loosen _ _ ih => exact ih

theorem exists_printing {e : Expr} (h : Printable e) : ∃ text, e.Printing text := by
  obtain ⟨ts, hts⟩ := exists_prints h
  obtain ⟨cs, hcs⟩ := Token.exists_layout hts.compact.spells
  exact ⟨String.ofList cs, ts, hts, by rwa [String.toList_ofList]⟩

end TemplateExpr
