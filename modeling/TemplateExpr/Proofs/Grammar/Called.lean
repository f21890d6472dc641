import TemplateExpr.Proofs.Expr.Nodes
import TemplateExpr.Proofs.Token.Tiling

namespace TemplateExpr

def Token.leads : Token → Bool
  | .symbol s => s ≠ .dot ∧ s ≠ .closeBracket ∧ s ≠ .closeParen
  | _ => false

namespace Grammar

def Opening (before : List Located) : Prop :=
  ∀ t ∈ before.getLast?, t.token.leads = true

-- An opening parenthesis between these tokens begins an operand, and what follows it is an
-- expression up to a closing one.
structure Groups (before after : List Located) : Prop where
  opening : Opening before
  content : ∃ ts b rest e n, after = ts ++ ⟨.symbol .closeParen, b⟩ :: rest ∧
    Derives .expression ts e n

-- An opening parenthesis between these tokens follows a name that is no property, in parentheses or
-- not, closes at once, and makes a call of that name in the tree.
def Calls (x : Expr) (before after : List Located) : Prop :=
  ∃ left callee o s n b rest, before = left ++ callee ∧ Callee o s callee n ∧
    (∀ t ∈ left.getLast?, t.token ≠ .symbol .dot) ∧ after = ⟨.symbol .closeParen, b⟩ :: rest ∧
      .call o s ∈ x.nodes

def Bare (before : List Located) : Prop :=
  ∃ left o s, before = left ++ [⟨.name s, o⟩] ∧ ∀ t ∈ left.getLast?, t.token ≠ .symbol .dot

-- Each opening parenthesis among some tokens, which stand between others, groups or calls.
def Settled (x : Expr) : List Located → List Located → List Located → Prop
  | _, [], _ => True
  | before, t :: ts, after =>
      (t.token = .symbol .openParen → Groups before (ts ++ after) ∨ Calls x before (ts ++ after)) ∧
        Settled x (before ++ [t]) ts after

variable {x e : Expr} {before after ts us : List Located} {t : Located} {o n : Nat} {s : String}

theorem opening_nil : Opening [] := by
  simp [Opening]

theorem opening_concat (before : List Located) {t : Token} (a : Nat) (ht : t.leads = true) :
    Opening (before ++ [⟨t, a⟩]) := by
  simpa [Opening] using ht

theorem Opening.token_ne_dot (h : Opening before) :
    ∀ t ∈ before.getLast?, t.token ≠ .symbol .dot := by
  intro t ht hdot
  have hleads := h t ht
  rw [hdot] at hleads
  cases hleads

theorem leads_binary (op : BinaryOp) : (Token.symbol op.symbol).leads = true := by
  cases op <;> rfl

theorem leads_unary (op : UnaryOp) : (Token.symbol op.symbol).leads = true := by
  cases op <;> rfl

theorem settled_append :
    Settled x before (ts ++ us) after ↔
      Settled x before ts (us ++ after) ∧ Settled x (before ++ ts) us after := by
  induction ts generalizing before with
  | nil => simp [Settled]
  | cons t ts ih => simp [Settled, ih, and_assoc]

theorem settled_cons (ht : t.token ≠ .symbol .openParen) :
    Settled x before (t :: ts) after ↔ Settled x (before ++ [t]) ts after := by
  simp [Settled, ht]

theorem settled_append_cons (ht : t.token ≠ .symbol .openParen) :
    Settled x before (ts ++ t :: us) after ↔
      Settled x before ts (t :: (us ++ after)) ∧ Settled x (before ++ ts ++ [t]) us after := by
  rw [settled_append, settled_cons ht, List.cons_append]

theorem Derives.settled_parens (a b : Nat) (h : Derives .expression ts e n)
    (hbefore : Opening before)
    (hts : Settled x (before ++ [⟨.symbol .openParen, a⟩]) ts (⟨.symbol .closeParen, b⟩ :: after)) :
    Settled x before (⟨.symbol .openParen, a⟩ :: (ts ++ [⟨.symbol .closeParen, b⟩])) after := by
  refine ⟨fun _ => .inl ⟨hbefore, ts, b, after, e, n, by simp, h⟩, ?_⟩
  exact settled_append.2 ⟨hts, by simp [Settled]⟩

theorem Callee.settled (h : Callee o s ts n) (hbefore : Opening before) :
    Settled x before ts after := by
  induction h generalizing before after with
  | bare => simp [Settled]
  | parens a b hc ih =>
      exact hc.derives.ofPrimary.settled_parens a b hbefore (ih (opening_concat before a rfl))

theorem Callee.settled_call (a b : Nat) (h : Callee o s ts n) (hbefore : Opening before)
    (hx : .call o s ∈ x.nodes) :
    Settled x before (ts ++ [⟨.symbol .openParen, a⟩, ⟨.symbol .closeParen, b⟩]) after := by
  have hcalls : Calls x (before ++ ts) (⟨.symbol .closeParen, b⟩ :: after) :=
    ⟨before, ts, o, s, n, b, after, rfl, h, hbefore.token_ne_dot, rfl, hx⟩
  exact settled_append.2 ⟨h.settled hbefore, fun _ => .inr hcalls, by simp [Settled]⟩

theorem Derives.settled {c : Category} (h : Derives c ts e n) (hbefore : Opening before)
    (hx : ∀ o s, .call o s ∈ e.nodes → .call o s ∈ x.nodes) : Settled x before ts after := by
  induction h generalizing before after with
  | plain _ ih => exact ih hbefore hx
  | ternary a b _ _ _ ihp ihy ihn =>
      refine (settled_append_cons (by simp)).2 ⟨ihp hbefore ?_, ?_⟩
      · grind [Expr.nodes]
      · refine (settled_append_cons (by simp)).2
          ⟨ihy (opening_concat _ a rfl) ?_, ihn (opening_concat _ b rfl) ?_⟩
        · grind [Expr.nodes]
        · grind [Expr.nodes]
  | single _ _ ih => exact ih hbefore hx
  | operator op a _ _ _ _ ihl ihr =>
      have hparen : Token.symbol op.symbol ≠ .symbol .openParen := by
        cases op <;> simp [BinaryOp.symbol]
      refine (settled_append_cons hparen).2
        ⟨ihl hbefore ?_, ihr (opening_concat _ a (leads_binary op)) ?_⟩
      · grind [Expr.nodes]
      · grind [Expr.nodes]
  | suffixed _ ih => exact ih hbefore hx
  | unary op o _ ih =>
      have hparen : Token.symbol op.symbol ≠ .symbol .openParen := by
        cases op <;> simp [UnaryOp.symbol]
      refine (settled_cons hparen).2 (ih (opening_concat _ o (leads_unary op)) ?_)
      grind [Expr.nodes]
  | primary _ ih => exact ih hbefore hx
  | @member _ _ _ _ t _ a _ ht ih =>
      have hparen : t.token ≠ .symbol .openParen := by
        intro hparen
        rw [hparen] at ht
        cases ht
      refine (settled_append_cons (by simp)).2 ⟨ih hbefore ?_, (settled_cons hparen).2 trivial⟩
      grind [Expr.nodes]
  | index a b _ _ ih ihk =>
      refine (settled_append_cons (by simp)).2 ⟨ih hbefore ?_, ?_⟩
      · grind [Expr.nodes]
      · refine (settled_append_cons (by simp)).2 ⟨ihk (opening_concat _ a rfl) ?_, trivial⟩
        grind [Expr.nodes]
  | call a b hc => exact hc.settled_call a b hbefore (hx _ _ (Expr.self_mem_nodes _))
  | @literal t _ o hl =>
      have hparen : t ≠ .symbol .openParen := by
        rintro rfl
        cases hl
      exact (settled_cons hparen).2 trivial
  | name o s => exact (settled_cons (by simp)).2 trivial
  | parens a b hd ih => exact hd.settled_parens a b hbefore (ih (opening_concat _ a rfl) hx)
  | array o _ ih => exact (settled_cons (by simp)).2 (ih (opening_concat _ o rfl) hx)
  | close o b => exact (settled_cons (by simp)).2 trivial
  | last o b _ ih =>
      refine (settled_append_cons (by simp)).2 ⟨ih hbefore ?_, trivial⟩
      grind [Expr.nodes, Expr.itemsNodes]
  | item o a _ _ ih ihs =>
      refine (settled_append_cons (by simp)).2
        ⟨ih hbefore ?_, ihs (opening_concat _ a rfl) ?_⟩
      · grind [Expr.nodes, Expr.itemsNodes]
      · grind [Expr.nodes, Expr.itemsNodes]

theorem Groups.token_ne_closeParen (h : Groups before after) :
    ∀ t ∈ before.getLast?, t.token ≠ .symbol .closeParen := by
  intro t ht hparen
  have hleads := h.opening t ht
  rw [hparen] at hleads
  cases hleads

theorem Calls.not_opening (h : Calls x before after) : ¬ Opening before := by
  obtain ⟨left, callee, o, s, n, b, rest, rfl, hc, -⟩ := h
  cases hc with
  | bare => simp [Opening, Token.leads]
  | parens a b _ => simp [Opening, List.getLast?_append, List.getLast?_cons, Token.leads]

theorem Calls.bare_iff (h : Calls x before after) :
    Bare before ↔ ∀ t ∈ before.getLast?, t.token ≠ .symbol .closeParen := by
  obtain ⟨left, callee, o, s, n, b, rest, rfl, hc, hdot, -⟩ := h
  cases hc with
  | bare => exact ⟨fun _ => by simp, fun _ => ⟨left, o, s, rfl, hdot⟩⟩
  | parens a b _ =>
      constructor
      · rintro ⟨left', o', s', hbare, -⟩
        simp [hbare]
      · intro h
        simp [List.getLast?_append, List.getLast?_cons] at h

theorem groups_or_calls {limit : Nat} {source : String} (h : Expr.parse limit source = .ok x) :
    ∃ ts, Token.scan source = .ok ts ∧
      ∀ before a after, ts = before ++ ⟨.symbol .openParen, a⟩ :: after →
        Groups before after ∨ Calls x before after := by
  obtain ⟨ts, hscan, hread⟩ := bind_eq_ok.1 h
  obtain ⟨n, -, hd⟩ := derives_of_ofTokens hread
  obtain ⟨us, rfl, hus⟩ := (Token.tiles_of_scan hscan).2.1
  rw [upToStop_append hus rfl] at hd
  have hsettled : Settled x [] (us ++ [⟨.stop, source.utf8ByteSize⟩]) [] :=
    settled_append.2 ⟨hd.settled opening_nil fun _ _ hx => hx, (settled_cons (by simp)).2 trivial⟩
  refine ⟨_, hscan, fun before a after hts => ?_⟩
  rw [hts, settled_append, List.nil_append] at hsettled
  simpa using hsettled.2.1 rfl

def OnlyBareCalled (ts : List Located) : Prop :=
  ∀ before a after, ts = before ++ ⟨.symbol .openParen, a⟩ :: after → ¬ Groups before after →
    Bare before

theorem onlyBareCalled_iff {limit : Nat} {source : String} (h : Expr.parse limit source = .ok x) :
    ∃ ts, Token.scan source = .ok ts ∧
      (∀ before a after, ts = before ++ ⟨.symbol .openParen, a⟩ :: after →
        (Groups before after ↔ Opening before) ∧
        (¬ Groups before after → Calls x before after ∧
          (Bare before ↔ ∀ t ∈ before.getLast?, t.token ≠ .symbol .closeParen))) ∧
      (OnlyBareCalled ts ↔ ∀ before a after, ts = before ++ ⟨.symbol .openParen, a⟩ :: after →
        ∀ t ∈ before.getLast?, t.token ≠ .symbol .closeParen) := by
  obtain ⟨ts, hscan, hparens⟩ := groups_or_calls h
  have hcalls (before : List Located) (a : Nat) (after : List Located)
      (hts : ts = before ++ ⟨.symbol .openParen, a⟩ :: after) (hgroups : ¬ Groups before after) :
      Calls x before after := (hparens before a after hts).resolve_left hgroups
  refine ⟨ts, hscan, fun before a after hts => ⟨⟨Groups.opening, fun hopening => ?_⟩, ?_⟩, ?_, ?_⟩
  · by_contra hgroups
    exact (hcalls before a after hts hgroups).not_opening hopening
  · intro hgroups
    have hcall := hcalls before a after hts hgroups
    exact ⟨hcall, hcall.bare_iff⟩
  · intro hbare before a after hts
    by_cases hgroups : Groups before after
    · exact hgroups.token_ne_closeParen
    · exact (hcalls before a after hts hgroups).bare_iff.1 (hbare before a after hts hgroups)
  · intro hparen before a after hts hgroups
    exact (hcalls before a after hts hgroups).bare_iff.2 (hparen before a after hts)

theorem onlyBareCalled_iff_of_group :
    Expr.parse 9 "(f())" = .ok (.call 1 "f") ∧
      ∃ before after, Token.scan "(f())" = .ok (before ++ ⟨.symbol .openParen, 2⟩ :: after) ∧
        Calls (.call 1 "f") before after ∧ Bare before := by
  have hparse : Expr.parse 9 "(f())" = .ok (.call 1 "f") := by with_unfolding_all rfl
  let before : List Located := [⟨.symbol .openParen, 0⟩, ⟨.name "f", 1⟩]
  let after : List Located := [⟨.symbol .closeParen, 3⟩, ⟨.symbol .closeParen, 4⟩, ⟨.stop, 5⟩]
  have hscan : Token.scan "(f())" = .ok (before ++ ⟨.symbol .openParen, 2⟩ :: after) := by
    with_unfolding_all rfl
  obtain ⟨ts, hts, hparens, -⟩ := onlyBareCalled_iff hparse
  cases hscan.symm.trans hts
  obtain ⟨hgroups, hcalls⟩ := hparens before 2 after rfl
  have hopening : ¬ Opening before := by simp [before, Opening, Token.leads]
  obtain ⟨hcalls, hbare⟩ := hcalls (mt hgroups.1 hopening)
  exact ⟨hparse, before, after, hscan, hcalls, hbare.2 (by simp [before])⟩

theorem not_onlyBareCalled_of_grouped_name :
    Expr.parse 64 "(f)()" = .ok (.call 1 "f") ∧
      ∃ ts, Token.scan "(f)()" = .ok ts ∧ ¬ OnlyBareCalled ts := by
  let before : List Located :=
    [⟨.symbol .openParen, 0⟩, ⟨.name "f", 1⟩, ⟨.symbol .closeParen, 2⟩]
  let after : List Located := [⟨.symbol .closeParen, 4⟩, ⟨.stop, 5⟩]
  have hparse : Expr.parse 64 "(f)()" = .ok (.call 1 "f") := by with_unfolding_all rfl
  have hscan : Token.scan "(f)()" = .ok (before ++ ⟨.symbol .openParen, 3⟩ :: after) := by
    with_unfolding_all rfl
  refine ⟨hparse, _, hscan, fun hbare => ?_⟩
  have hopening : ¬ Opening before := by simp [before, Opening, Token.leads]
  obtain ⟨left, o, s, hleft, -⟩ := hbare before 3 after rfl (mt Groups.opening hopening)
  have hlast := congrArg List.getLast? hleft
  simp [before] at hlast

end Grammar

end TemplateExpr
