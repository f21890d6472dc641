import TemplateExpr.Proofs.Grammar.Printing
import TemplateExpr.Proofs.Grammar.Reading

namespace TemplateExpr

mutual

def Expr.erase : Expr → Expr
  | .literal _ v => .literal 0 v
  | .name _ s => .name 0 s
  | .member _ e p => .member 0 e.erase p
  | .index _ e key => .index 0 e.erase key.erase
  | .unary _ op e => .unary 0 op e.erase
  | .binary _ op x y => .binary 0 op x.erase y.erase
  | .ternary _ p yes no => .ternary 0 p.erase yes.erase no.erase
  | .array _ items => .array 0 (Expr.eraseItems items)
  | .call _ s => .call 0 s

def Expr.eraseItems : List Expr → List Expr
  | [] => []
  | e :: es => e.erase :: Expr.eraseItems es

end

namespace Grammar

theorem eq_name_of_erase {e : Expr} {s : String} (h : e.erase = .name 0 s) :
    ∃ o, e = .name o s := by
  cases e <;> simp only [Expr.erase, reduceCtorEq, Expr.name.injEq, true_and] at h
  exact ⟨_, by rw [h]⟩

-- The categories of a place, the rest of an array with the offset at which the array opens.
def Place (o : Nat) : Nat → Category → Prop
  | 0 => (· = .arrayTail o)
  | 1 => (· = .expression)
  | 2 => (∃ k, · = .chain .equality k)
  | 3 => (∃ k, · = .chain .relational k)
  | 4 => (∃ k, · = .chain .additive k)
  | 5 => (∃ k, · = .chain .multiplicative k)
  | 6 => (· = .unary)
  | 7 => (∃ k, · = .suffixed k)
  | 8 => (· = .primary)
  | _ => fun _ => False

theorem place_tightness {p : Precedence} {o : Nat} {cat : Category} :
    Place o p.tightness cat ↔ ∃ k, cat = .chain p k := by
  cases p <;> exact Iff.rfl

theorem operand_of_place {p : Precedence} {o : Nat} {cat : Category}
    (h : Place o (p.tightness + 1) cat) : Operand p cat := by
  cases p
  case multiplicative => obtain rfl : cat = .unary := h; exact .multiplicative
  all_goals obtain ⟨k, rfl⟩ : ∃ k, cat = .chain _ k := h
  · exact .equality k
  · exact .relational k
  · exact .additive k

def DerivesAt (l : Nat) (ts : List Located) (e : Expr) : Prop :=
  ∀ o, ∃ cat e' n, Place o l cat ∧ Derives cat ts e' n ∧ e'.erase = e.erase

section

variable {l : Nat} {ts us vs : List Located} {e x y z : Expr}

theorem DerivesAt.loosen (hl : 0 < l) (h : DerivesAt (l + 1) ts e) : DerivesAt l ts e := by
  intro o
  obtain ⟨cat, e', n, hplace, hd, he⟩ := h o
  have found : ∃ cat' m, Place o l cat' ∧ Derives cat' ts e' m := by
    match l, hplace with
    | 1, ⟨k, hcat⟩ => exact ⟨_, _, rfl, .plain (hcat ▸ hd)⟩
    | 2, ⟨k, hcat⟩ => exact ⟨_, _, ⟨0, rfl⟩, .single (.equality k) (hcat ▸ hd)⟩
    | 3, ⟨k, hcat⟩ => exact ⟨_, _, ⟨0, rfl⟩, .single (.relational k) (hcat ▸ hd)⟩
    | 4, ⟨k, hcat⟩ => exact ⟨_, _, ⟨0, rfl⟩, .single (.additive k) (hcat ▸ hd)⟩
    | 5, hcat => exact ⟨_, _, ⟨0, rfl⟩, .single .multiplicative (hcat ▸ hd)⟩
    | 6, ⟨k, hcat⟩ => exact ⟨_, _, rfl, .suffixed (hcat ▸ hd)⟩
    | 7, hcat => exact ⟨_, _, ⟨0, rfl⟩, .primary (hcat ▸ hd)⟩
  obtain ⟨cat', m, hplace', hd'⟩ := found
  exact ⟨cat', e', m, hplace', hd', he⟩

theorem DerivesAt.parens (a b : Nat) (h : DerivesAt 1 ts e) :
    DerivesAt 8 (⟨.symbol .openParen, a⟩ :: (ts ++ [⟨.symbol .closeParen, b⟩])) e := by
  intro o
  obtain ⟨_, e', n, rfl, hd, he⟩ := h 0
  exact ⟨_, e', n, rfl, .parens a b hd, he⟩

theorem DerivesAt.array (a : Nat) (h : DerivesAt 0 ts e) :
    DerivesAt 8 (⟨.symbol .openBracket, a⟩ :: ts) e := by
  intro o
  obtain ⟨_, e', n, rfl, hd, he⟩ := h a
  exact ⟨_, e', n, rfl, .array a hd, he⟩

theorem DerivesAt.last (p b : Nat) (h : DerivesAt 1 ts e) :
    DerivesAt 0 (ts ++ [⟨.symbol .closeBracket, b⟩]) (.array p [e]) := by
  intro o
  obtain ⟨_, e', n, rfl, hd, he⟩ := h 0
  exact ⟨_, _, n, rfl, .last o b hd, by simp only [Expr.erase, Expr.eraseItems, he]⟩

theorem DerivesAt.item {p : Nat} {es : List Expr} (a : Nat) (h : DerivesAt 1 ts e)
    (hs : DerivesAt 0 us (.array p es)) :
    DerivesAt 0 (ts ++ ⟨.symbol .comma, a⟩ :: us) (.array p (e :: es)) := by
  intro o
  obtain ⟨_, e', n, rfl, hd, he⟩ := h 0
  obtain ⟨_, x, m, rfl, hds, hes⟩ := hs o
  obtain ⟨es', rfl⟩ := hds.eq_array
  refine ⟨_, _, _, rfl, .item o a hd hds, ?_⟩
  simp only [Expr.erase, Expr.array.injEq, true_and] at hes
  simp only [Expr.erase, Expr.eraseItems, he, hes]

theorem DerivesAt.call {p : Nat} {s : String} (a b : Nat) (h : DerivesAt 8 ts (.name p s)) :
    DerivesAt 7 (ts ++ [⟨.symbol .openParen, a⟩, ⟨.symbol .closeParen, b⟩]) (.call p s) := by
  intro o
  obtain ⟨_, e', n, rfl, hd, he⟩ := h 0
  obtain ⟨q, rfl⟩ := eq_name_of_erase he
  exact ⟨_, _, _, ⟨1, rfl⟩, .call a b (hd.nameForm rfl), rfl⟩

theorem DerivesAt.member {q : Nat} {p : String} {t : Located} (a : Nat) (h : DerivesAt 7 ts e)
    (ht : t.token.propertyName? = some p) :
    DerivesAt 7 (ts ++ [⟨.symbol .dot, a⟩, t]) (.member q e p) := by
  intro o
  obtain ⟨_, e', n, ⟨k, rfl⟩, hd, he⟩ := h 0
  exact ⟨_, _, _, ⟨k + 1, rfl⟩, .member a hd ht, by simp only [Expr.erase, he]⟩

theorem DerivesAt.index {q : Nat} (a b : Nat) (h : DerivesAt 7 ts x) (hkey : DerivesAt 1 us y) :
    DerivesAt 7 (ts ++ ⟨.symbol .openBracket, a⟩ :: (us ++ [⟨.symbol .closeBracket, b⟩]))
      (.index q x y) := by
  intro o
  obtain ⟨_, x', n, ⟨k, rfl⟩, hx, hex⟩ := h 0
  obtain ⟨_, y', m, rfl, hy, hey⟩ := hkey 0
  exact ⟨_, _, _, ⟨k + 1, rfl⟩, .index a b hx hy, by simp only [Expr.erase, hex, hey]⟩

theorem DerivesAt.unary {p : Nat} (a : Nat) (op : UnaryOp) (h : DerivesAt 6 ts e) :
    DerivesAt 6 (⟨.symbol op.symbol, a⟩ :: ts) (.unary p op e) := by
  intro o
  obtain ⟨_, e', n, rfl, hd, he⟩ := h 0
  exact ⟨_, _, _, rfl, .unary op a hd, by simp only [Expr.erase, he]⟩

theorem DerivesAt.binary {q : Nat} (a : Nat) (op : BinaryOp)
    (hx : DerivesAt op.precedence.tightness ts x)
    (hy : DerivesAt (op.precedence.tightness + 1) us y) :
    DerivesAt op.precedence.tightness (ts ++ ⟨.symbol op.symbol, a⟩ :: us) (.binary q op x y) := by
  intro o
  obtain ⟨_, x', n, hp, hdx, hex⟩ := hx 0
  obtain ⟨k, rfl⟩ := place_tightness.1 hp
  obtain ⟨cat, y', m, hq, hdy, hey⟩ := hy 0
  exact ⟨_, _, _, place_tightness.2 ⟨k + 1, rfl⟩,
    .operator op a rfl hdx (operand_of_place hq) hdy, by simp only [Expr.erase, hex, hey]⟩

theorem DerivesAt.ternary {q : Nat} (a b : Nat) (hp : DerivesAt 2 ts x) (hy : DerivesAt 1 us y)
    (hn : DerivesAt 1 vs z) :
    DerivesAt 1 (ts ++ ⟨.symbol .question, a⟩ :: (us ++ ⟨.symbol .colon, b⟩ :: vs))
      (.ternary q x y z) := by
  intro o
  obtain ⟨_, x', n, ⟨k, rfl⟩, hdx, hex⟩ := hp 0
  obtain ⟨_, y', m, rfl, hdy, hey⟩ := hy 0
  obtain ⟨_, z', i, rfl, hdz, hez⟩ := hn 0
  exact ⟨_, _, _, rfl, .ternary a b hdx hdy hdz, by simp only [Expr.erase, hex, hey, hez]⟩

theorem tokens_eq_cons {t : Token} {tokens : List Token} (h : ts.map (·.token) = t :: tokens) :
    ∃ a us, ts = ⟨t, a⟩ :: us ∧ us.map (·.token) = tokens := by
  obtain ⟨⟨_, a⟩, us, rfl, rfl, hus⟩ := List.map_eq_cons_iff.1 h
  exact ⟨a, us, rfl, hus⟩

theorem tokens_eq_single {t : Token} (h : ts.map (·.token) = [t]) : ∃ a, ts = [⟨t, a⟩] := by
  obtain ⟨a, us, rfl, hus⟩ := tokens_eq_cons h
  exact ⟨a, by rw [List.map_eq_nil_iff.1 hus]⟩

theorem derivesAt_of_prints {tokens : List Token} (h : Prints l e tokens) :
    ∀ ts : List Located, ts.map (·.token) = tokens → DerivesAt l ts e := by
  induction h with
  | literal o hv =>
      intro ts hts
      obtain ⟨a, rfl⟩ := tokens_eq_single hts
      exact fun o => ⟨_, _, 0, rfl, .literal a (Literal.literal?_of_token? hv), rfl⟩
  | name o hs =>
      intro ts hts
      obtain ⟨a, rfl⟩ := tokens_eq_single hts
      exact fun o => ⟨_, _, 0, rfl, .name a _, rfl⟩
  | parens _ ih =>
      intro ts hts
      obtain ⟨a, _, rfl, h₁⟩ := tokens_eq_cons hts
      obtain ⟨us, _, rfl, hus, h₂⟩ := List.map_eq_append_iff.1 h₁
      obtain ⟨b, rfl⟩ := tokens_eq_single h₂
      exact (ih us hus).parens a b
  | array _ ih =>
      intro ts hts
      obtain ⟨a, us, rfl, hus⟩ := tokens_eq_cons hts
      exact (ih us hus).array a
  | close p =>
      intro ts hts
      obtain ⟨b, rfl⟩ := tokens_eq_single hts
      exact fun o => ⟨_, _, 0, rfl, .close o b, rfl⟩
  | last p _ ih =>
      intro ts hts
      obtain ⟨us, _, rfl, hus, h₁⟩ := List.map_eq_append_iff.1 hts
      obtain ⟨b, rfl⟩ := tokens_eq_single h₁
      exact (ih us hus).last p b
  | item _ _ ih ihs =>
      intro ts hts
      obtain ⟨us, _, rfl, hus, h₁⟩ := List.map_eq_append_iff.1 hts
      obtain ⟨a, vs, rfl, hvs⟩ := tokens_eq_cons h₁
      exact (ih us hus).item a (ihs vs hvs)
  | call _ ih =>
      intro ts hts
      obtain ⟨us, _, rfl, hus, h₁⟩ := List.map_eq_append_iff.1 hts
      obtain ⟨a, _, rfl, h₂⟩ := tokens_eq_cons h₁
      obtain ⟨b, rfl⟩ := tokens_eq_single h₂
      exact (ih us hus).call a b
  | member o _ hp ih =>
      intro ts hts
      obtain ⟨us, _, rfl, hus, h₁⟩ := List.map_eq_append_iff.1 hts
      obtain ⟨a, _, rfl, h₂⟩ := tokens_eq_cons h₁
      obtain ⟨b, rfl⟩ := tokens_eq_single h₂
      exact (ih us hus).member a hp.propertyName?
  | index o _ _ ih ihk =>
      intro ts hts
      obtain ⟨us, _, rfl, hus, h₁⟩ := List.map_eq_append_iff.1 hts
      obtain ⟨a, _, rfl, h₂⟩ := tokens_eq_cons h₁
      obtain ⟨vs, _, rfl, hvs, h₃⟩ := List.map_eq_append_iff.1 h₂
      obtain ⟨b, rfl⟩ := tokens_eq_single h₃
      exact (ih us hus).index a b (ihk vs hvs)
  | unary p op _ ih =>
      intro ts hts
      obtain ⟨a, us, rfl, hus⟩ := tokens_eq_cons hts
      exact (ih us hus).unary a op
  | binary o op _ _ ihx ihy =>
      intro ts hts
      obtain ⟨us, _, rfl, hus, h₁⟩ := List.map_eq_append_iff.1 hts
      obtain ⟨a, vs, rfl, hvs⟩ := tokens_eq_cons h₁
      exact (ihx us hus).binary a op (ihy vs hvs)
  | ternary o _ _ _ ihp ihy ihn =>
      intro ts hts
      obtain ⟨us, _, rfl, hus, h₁⟩ := List.map_eq_append_iff.1 hts
      obtain ⟨a, _, rfl, h₂⟩ := tokens_eq_cons h₁
      obtain ⟨vs, _, rfl, hvs, h₃⟩ := List.map_eq_append_iff.1 h₂
      obtain ⟨b, ws, rfl, hws⟩ := tokens_eq_cons h₃
      exact (ihp us hus).ternary a b (ihy vs hvs) (ihn ws hws)
  | loosen hl _ ih => exact fun ts hts => (ih ts hts).loosen hl

end

end Grammar

open Grammar

theorem parse_printing {e : Expr} (he : Printable e) :
    (∃ text, e.Printing text) ∧ ∀ text, e.Printing text →
      ∃ d₀ e', e'.erase = e.erase ∧ ∀ d ≥ d₀, Expr.parse d text = .ok e' := by
  refine ⟨exists_printing he, ?_⟩
  rintro text ⟨tokens, hprints, hlayout⟩
  obtain ⟨ts, stop, hscan, hts, hstop⟩ := Token.scanFrom_layout hlayout hprints.compact.chain 0
  obtain ⟨_, e', n, rfl, hd, herase⟩ := derivesAt_of_prints hprints ts hts 0
  refine ⟨n, e', herase, ?_⟩
  intro d hd'
  have hup : upToStop (ts ++ [stop]) = ts := upToStop_append hd.token_ne_stop hstop
  rw [Expr.parse, Token.scan, hscan]
  exact ofTokens_of_derives hd' (hup.symm ▸ hd)

theorem parse_printing_of_sum :
    ∃ d₀ e', e'.erase = .binary 0 .add (.member 0 (.literal 0 (.number (.integer 1))) "true")
        (.array 0 [.literal 0 (.text "a'b")]) ∧
      ∀ d ≥ d₀, Expr.parse d "1.true+ ['a\\'b',]" = .ok e' := by
  have he : Printable (.binary 0 .add (.member 0 (.literal 0 (.number (.integer 1))) "true")
      (.array 0 [.literal 0 (.text "a'b")])) :=
    .binary 0 .add (.member 0 (.literal 0 rfl) (.inr ⟨.trueWord, rfl, rfl⟩))
      (.array 0 (List.forall_mem_singleton.2 (.literal 0 rfl)))
  have hone : Prints 8 (.literal 0 (.number (.integer 1))) [.number (.ofInt 1)] := .literal 0 rfl
  have htext : Prints 8 (.literal 0 (.text "a'b")) [.text "a'b"] := .literal 0 rfl
  have hx := Prints.member 0 (.loosen (by decide) hone) (.inr ⟨.trueWord, rfl, rfl⟩)
  have hy := (Prints.item (htext.loosen_of_le (by decide) (by decide)) (.close 0)).array
  have hsum := Prints.binary 0 .add (hx.loosen_of_le (by decide) (by decide))
    (hy.loosen_of_le (by decide) (by decide))
  refine (parse_printing he).2 _ ⟨_, hsum.loosen_of_le (by decide) (by decide), ?_⟩
  have none : ∀ c ∈ [], Text.isSpace c = true := nofun
  have one : ∀ c ∈ [' '], Text.isSpace c = true := List.forall_mem_singleton.2 rfl
  have hquotes : Token.Quotes '\'' "a'b".toList "a\\'b".toList :=
    .plain (by decide) (by decide) (by decide) (.escape (c := '\'') (by decide)
      (.plain (c := 'b') (by decide) (by decide) (by decide) .nil))
  have hlayout := Token.Layout.token none (.number (by decide : 1 < _)) <|
    .token none (.symbol .dot) <| .token none (.word .trueWord) <| .token none (.symbol .plus) <|
    .token one (.symbol .openBracket) <|
    .token none (.text (.inr rfl) hquotes) <| .token none (.symbol .comma) <|
    .token none (.symbol .closeBracket) (.stop none)
  exact hlayout

end TemplateExpr
