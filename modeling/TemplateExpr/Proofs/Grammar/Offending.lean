import TemplateExpr.Proofs.Grammar.Refuses

namespace TemplateExpr.Grammar

def Halts (bound : Nat) (r : Rule) (P : Category → Prop) : Prop :=
  ∀ budget ≤ bound, ∀ c expected found, Stops c.after →
    r budget c = .error (.unexpected expected found) →
    Refuses r (Begins P) budget c expected found

theorem Halts.mono {bound : Nat} {r : Rule} {P Q : Category → Prop} (h : Halts bound r P)
    (hPQ : ∀ cat, P cat → Q cat) : Halts bound r Q :=
  fun budget hb c expected found hs he =>
    (h budget hb c expected found hs he).mono fun _ hbegin => hbegin.mono hPQ

variable {bound : Nat}

theorem Halts.bind {α : Type} {r : Rule} {P : Category → Prop} {B : List Located → Prop}
    {budget : Nat} {c : Cursor} {expected : Expectation} {found : Located}
    {k : Nat → Expr × Cursor → Except Failure α} (h : Halts bound r P) (hr : Repeats r P)
    (hb : budget ≤ bound) (hs : Stops c.after)
    (he : (r budget c >>= k budget) = .error (.unexpected expected found))
    (hB : ∀ us, Begins P us → B us)
    (hk : ∀ cat ts x n c₁, P cat → Derives cat ts x n → c.after = ts ++ c₁.after →
      Stops c₁.after → k budget (x, c₁) = .error (.unexpected expected found) →
      Refuses (fun b c => k b (x, c)) (fun us => B (ts ++ us)) budget c₁ expected found) :
    Refuses (fun b c => r b c >>= k b) B budget c expected found := by
  rcases bind_eq_error.1 he with he | ⟨⟨x, c₁⟩, hx, he⟩
  · exact ((h budget hb c expected found hs he).mono hB).bind
  · obtain ⟨cat, ts, n, hcat, hts, hd, -, hpass⟩ := hr _ _ _ _ hx
    have hs₁ : Stops c₁.after := Stops.of_append (hts ▸ hs) hd.token_ne_stop
    exact (hk cat ts x n c₁ hcat hd hts hs₁ he).after hpass hts fun _ => id

section

variable {budget : Nat} {c : Cursor} {expected : Expectation} {found : Located}

def arrayStep (budget : Nat) (rest : Cursor → Except Failure (List Expr × Cursor)) (c : Cursor) :
    Except Failure (List Expr × Cursor) :=
  if c.token = .symbol .closeBracket then .ok ([], c.advance)
  else do
    let (e, c) ← Rule.nested budget c
    if c.token = .symbol .comma then do
      let (es, c) ← rest c.advance
      .ok (e :: es, c)
    else do
      let c ← c.expect .closeBracket .closeArray
      .ok ([e], c)

-- An item takes at least one token, so an array step goes on only with fewer of them.
theorem arrayStep_congr {f g : Cursor → Except Failure (List Expr × Cursor)}
    (h : ∀ c' : Cursor, c'.after.length < c.after.length → f c' = g c') :
    arrayStep budget f c = arrayStep budget g c := by
  unfold arrayStep
  cases hn : Rule.nested budget c with
  | error => rfl
  | ok x =>
      obtain ⟨e, c₁⟩ := x
      obtain ⟨_, ts, n, rfl, hts, -, hd⟩ := nested_sound _ _ _ _ hn
      have hlt : c₁.advance.after.length < c.after.length := by
        have hpos := List.length_pos_iff.2 hd.ne_nil
        rw [hts, List.length_append]
        obtain ⟨before, _ | ⟨t, after⟩⟩ := c₁ <;> simp [Cursor.advance] <;> omega
      simp only [bind, Except.bind, h _ hlt]

theorem items_eq_of_lt {left left' : Nat} (h : c.after.length < left) (h' : c.after.length < left') :
    Rule.items Rule.nested budget left c = Rule.items Rule.nested budget left' c := by
  induction left generalizing left' c with
  | zero => omega
  | succ left ih =>
      obtain ⟨left', rfl⟩ := Nat.exists_eq_add_one.2 (Nat.lt_of_le_of_lt (Nat.zero_le _) h')
      exact arrayStep_congr fun c' hlt => ih (by omega) (by omega)

def restOfArray (budget : Nat) (c : Cursor) : Except Failure (List Expr × Cursor) :=
  Rule.items Rule.nested budget (c.after.length + 1) c

theorem restOfArray_eq (budget : Nat) (c : Cursor) :
    restOfArray budget c = arrayStep budget (restOfArray budget) c :=
  arrayStep_congr fun _ hlt => items_eq_of_lt hlt (Nat.lt_succ_self _)

theorem restOfArray_refuses (h : Halts bound Rule.nested (· = .expression)) (o : Nat)
    (hb : budget ≤ bound) (hs : Stops c.after)
    (he : restOfArray budget c = .error (.unexpected expected found)) :
    Refuses restOfArray (Begins (· = .arrayTail o)) budget c expected found := by
  induction hlen : c.after.length using Nat.strongRecOn generalizing c with
  | _ length ih =>
      subst hlen
      rw [restOfArray_eq, arrayStep] at he
      split at he
      · cases he
      · rename_i ht
        refine (h.bind nested_repeats hb hs he (fun _ => Begins.last o) ?_).congr
          fun b c' hc => by rw [restOfArray_eq, arrayStep, if_neg (hc ▸ ht)]
        rintro _ ts x n c₁ rfl hd hts hs₁ he
        dsimp only at he
        split at he
        · rename_i hcomma
          obtain ⟨before, tok, a, after, rfl⟩ := hs₁.exists_cons
          obtain rfl : tok = .symbol .comma := hcomma
          rcases bind_eq_error.1 he with he | ⟨_, _, he⟩
          · have hlt : after.length < c.after.length := by
              rw [hts, List.length_append, List.length_cons]
              omega
            exact (ih _ hlt (hs₁.tail (by simp)) he rfl).bind.cons (fun _ _ _ => rfl)
              fun _ => Begins.item a hd
          · cases he
        · rename_i hcomma
          have hbegin : Begins (· = .arrayTail o) (ts ++ []) := by
            simpa using hd.begins.last o
          exact (Refuses.expect hs₁ he hbegin (fun _ he => by cases he)).congr
            fun b c' hc => if_neg (hc ▸ hcomma)

theorem primary_halts (h : Halts bound Rule.nested (· = .expression)) :
    Halts bound (Rule.primary Rule.nested) (· = .primary) := by
  intro budget hb c expected found hs he
  obtain ⟨before, tok, o, after, rfl⟩ := hs.exists_cons
  unfold Rule.primary at he
  split at he
  case h_5 ht =>
    obtain rfl : tok = .symbol .openParen := ht
    refine (h.bind nested_repeats hb (hs.tail (by simp)) he (fun _ => id) ?_).cons
      (fun _ _ _ => rfl) fun _ => Begins.parens o
    rintro _ ts x n c₁ rfl hd - hs₁ he
    exact Refuses.expect hs₁ he (by simpa using hd.begins) fun _ he => by cases he
  case h_6 ht =>
    obtain rfl : tok = .symbol .openBracket := ht
    rcases bind_eq_error.1 he with he | ⟨_, _, he⟩
    · have hr := restOfArray_refuses h o hb (hs.tail (by simp)) he
      exact (hr.bind (g := fun _ x => .ok (.array o x.1, x.2))).cons (fun _ _ _ => rfl)
        fun _ => Begins.array
    · cases he
  case h_7 hnumber htext hword hname hparen hbracket =>
    cases he
    refine Refuses.here ?_ .primary_nil
    intro b before rest
    unfold Rule.primary
    split <;> first | rfl | simp_all
  all_goals cases he

theorem suffixes_uncallable {e : Expr} {o : Nat} {before after : List Located} {tok : Token}
    (h : Rule.Suffix.of e tok = .uncallable) (b : Nat) :
    Rule.suffixes Rule.nested b e ⟨before, ⟨tok, o⟩ :: after⟩ =
      .error (.unexpected .onlyNamedCalls ⟨tok, o⟩) := by
  cases b <;> rw [Rule.suffixes, Cursor.token_cons, h] <;> rfl

def SuffixesRefuse (budget : Nat) : Prop :=
  ∀ {k n ts e c expected found}, Derives (.suffixed k) ts e n → Stops c.after →
    Rule.suffixes Rule.nested budget e c = .error (.unexpected expected found) →
    Refuses (fun b => Rule.suffixes Rule.nested b e)
      (fun us => Begins (∃ k, · = .suffixed k) (ts ++ us)) budget c expected found

section

variable {k n o : Nat} {ts before after : List Located} {e : Expr}

theorem uncallable_refuses {tok : Token} (hd : Derives (.suffixed k) ts e n)
    (h : Rule.Suffix.of e tok = .uncallable) :
    Refuses (fun b => Rule.suffixes Rule.nested b e)
      (fun us => Begins (∃ k, · = .suffixed k) (ts ++ us)) budget ⟨before, ⟨tok, o⟩ :: after⟩
      .onlyNamedCalls ⟨tok, o⟩ := by
  refine Refuses.here (fun b _ _ => suffixes_uncallable h b) ?_
  simpa using hd.begins.mono fun _ hcat => ⟨k, hcat⟩

theorem SuffixesRefuse.extend (ih : SuffixesRefuse budget) {m : Nat} {vs : List Located} {x : Expr}
    (hx : Derives (.suffixed k) (ts ++ vs) x m) (hs : Stops c.after)
    (he : Rule.suffixes Rule.nested budget x c = .error (.unexpected expected found)) :
    Refuses (fun b => Rule.suffixes Rule.nested b x)
      (fun us => Begins (∃ k, · = .suffixed k) (ts ++ (vs ++ us))) budget c expected found := by
  simpa only [List.append_assoc] using ih hx hs he

theorem SuffixesRefuse.member (ih : SuffixesRefuse budget) (hd : Derives (.suffixed k) ts e n)
    (hs : Stops after)
    (he : Rule.suffixes Rule.nested (budget + 1) e ⟨before, ⟨.symbol .dot, o⟩ :: after⟩ =
      .error (.unexpected expected found)) :
    Refuses (fun b => Rule.suffixes Rule.nested b e)
      (fun us => Begins (∃ k, · = .suffixed k) (ts ++ us)) (budget + 1)
      ⟨before, ⟨.symbol .dot, o⟩ :: after⟩ expected found := by
  rw [Rule.suffixes] at he
  refine (Refuses.property hs he (Begins.member o hd) ?_).step
    (fun b before rest => by rw [Rule.suffixes]; rfl) fun _ => id
  intro t name c₁ hname hs₁ he
  exact ih.extend (.member o hd hname) hs₁ he

theorem SuffixesRefuse.index (ih : SuffixesRefuse budget)
    (h : Halts bound Rule.nested (· = .expression)) (hb : budget ≤ bound)
    (hd : Derives (.suffixed k) ts e n) (hs : Stops after)
    (he : Rule.suffixes Rule.nested (budget + 1) e ⟨before, ⟨.symbol .openBracket, o⟩ :: after⟩ =
      .error (.unexpected expected found)) :
    Refuses (fun b => Rule.suffixes Rule.nested b e)
      (fun us => Begins (∃ k, · = .suffixed k) (ts ++ us)) (budget + 1)
      ⟨before, ⟨.symbol .openBracket, o⟩ :: after⟩ expected found := by
  rw [Rule.suffixes] at he
  refine (h.bind nested_repeats hb hs he (fun _ => Begins.index o hd) ?_).step
    (fun b before rest => by rw [Rule.suffixes]; rfl) fun _ => id
  rintro _ us key m c₁ rfl hkey hts hs₁ he
  have hbegin := Begins.index o hd hkey.begins
  refine Refuses.expect hs₁ he (by simpa using hbegin) ?_
  intro hs₂ he
  simpa using ih.extend (.index o c₁.offset hd hkey) hs₂ he

theorem SuffixesRefuse.call {p : Nat} {s : String} (ih : SuffixesRefuse budget)
    (hd : Derives (.suffixed k) ts (.name p s) n) (hs : Stops after)
    (he : Rule.suffixes Rule.nested (budget + 1) (.name p s)
      ⟨before, ⟨.symbol .openParen, o⟩ :: after⟩ = .error (.unexpected expected found)) :
    Refuses (fun b => Rule.suffixes Rule.nested b (.name p s))
      (fun us => Begins (∃ k, · = .suffixed k) (ts ++ us)) (budget + 1)
      ⟨before, ⟨.symbol .openParen, o⟩ :: after⟩ expected found := by
  obtain ⟨rfl, hcallee⟩ := hd.nameForm rfl
  rw [Rule.suffixes] at he
  refine (Refuses.expect hs he (Begins.call o hcallee) ?_).step
    (fun b before rest => by rw [Rule.suffixes]; rfl) fun _ => id
  intro hs₂ he
  exact ih.extend (.call o _ hcallee) hs₂ he

end

theorem suffixesRefuse (h : Halts bound Rule.nested (· = .expression)) (hb : budget ≤ bound) :
    SuffixesRefuse budget := by
  induction budget with
  | zero =>
      intro k n ts e c expected found hd hs he
      obtain ⟨before, tok, o, after, rfl⟩ := hs.exists_cons
      rw [Rule.suffixes] at he
      split at he <;> cases he
      rename_i hsuffix
      exact uncallable_refuses hd hsuffix
  | succ budget ih =>
      have ih : SuffixesRefuse budget := ih (Nat.le_of_succ_le hb)
      intro k n ts e c expected found hd hs he
      obtain ⟨before, tok, o, after, rfl⟩ := hs.exists_cons
      cases hsuffix : Rule.Suffix.of e tok with
      | absent =>
          rw [Rule.suffixes, Cursor.token_cons, hsuffix] at he
          cases he
      | uncallable =>
          rw [suffixes_uncallable hsuffix] at he
          cases he
          exact uncallable_refuses hd hsuffix
      | property =>
          obtain rfl := Rule.Suffix.of_eq_property.1 hsuffix
          exact ih.member hd (hs.tail (by simp)) he
      | index =>
          obtain rfl := Rule.Suffix.of_eq_index.1 hsuffix
          exact ih.index h (Nat.le_of_succ_le hb) hd (hs.tail (by simp)) he
      | call p s =>
          obtain ⟨rfl, rfl⟩ := Rule.Suffix.of_eq_call.1 hsuffix
          exact ih.call hd (hs.tail (by simp)) he

end

theorem suffixed_halts (h : Halts bound Rule.nested (· = .expression)) :
    Halts bound (Rule.suffixed Rule.nested) (∃ k, · = .suffixed k) := by
  intro budget hb c expected found hs he
  refine (primary_halts h).bind primary_repeats hb hs he (fun _ => Begins.suffixed) ?_
  rintro _ ts e n c₁ rfl hd - hs₁ he
  exact suffixesRefuse h hb (.primary hd) hs₁ he

theorem unary_halts {operand : Rule} (h : Halts bound operand (∃ k, · = .suffixed k)) :
    Halts bound (Rule.unary operand) (Operand .multiplicative) := by
  intro budget
  induction budget with
  | zero =>
      intro hb c expected found hs he
      cases hop : Rule.unaryOp? c.token with
      | none =>
          rw [Rule.unary_of_none hop] at he
          exact ((h _ hb _ _ _ hs he).mono fun _ => Begins.ofSuffixed).congr
            fun b c' hc => Rule.unary_of_none (hc ▸ hop)
      | some op =>
          rw [Rule.unary_zero hop] at he
          cases he
  | succ budget ih =>
      intro hb c expected found hs he
      cases hop : Rule.unaryOp? c.token with
      | none =>
          rw [Rule.unary_of_none hop] at he
          exact ((h _ hb _ _ _ hs he).mono fun _ => Begins.ofSuffixed).congr
            fun b c' hc => Rule.unary_of_none (hc ▸ hop)
      | some op =>
          obtain ⟨before, tok, o, after, rfl⟩ := hs.exists_cons
          obtain rfl := unaryOp?_eq_some.1 hop
          rw [Rule.unary_succ hop] at he
          rcases bind_eq_error.1 he with he | ⟨_, _, he⟩
          · have hr := ih (Nat.le_of_succ_le hb) _ _ _ (hs.tail (by simp)) he
            exact (hr.bind (g := fun _ x => .ok (.unary o op x.1, x.2))).step
              (fun b before rest => Rule.unary_succ (c := ⟨before, _ :: rest⟩) hop)
              fun _ => Begins.unary op o
          · cases he

theorem chain_refuses {p : Precedence} (h : Halts bound p.operand (Operand p)) {budget k n : Nat}
    (hb : budget ≤ bound) {ts : List Located} {e : Expr} {c : Cursor} {expected : Expectation}
    {found : Located} (hd : Derives (.chain p k) ts e n) (hs : Stops c.after)
    (he : Rule.chain p.operator? p.operand budget e c = .error (.unexpected expected found)) :
    Refuses (fun b => Rule.chain p.operator? p.operand b e)
      (fun us => Begins (∃ k, · = .chain p k) (ts ++ us)) budget c expected found := by
  induction budget generalizing k n ts e c with
  | zero =>
      cases hop : p.operator? c.token with
      | none => rw [Rule.chain_of_none hop] at he; cases he
      | some op => rw [Rule.chain_zero hop] at he; cases he
  | succ budget ih =>
      cases hop : p.operator? c.token with
      | none => rw [Rule.chain_of_none hop] at he; cases he
      | some op =>
          obtain ⟨before, tok, o, after, rfl⟩ := hs.exists_cons
          obtain ⟨rfl, hp⟩ := Precedence.operator?_eq_some.1 hop
          rw [Rule.chain_succ hop] at he
          refine (h.bind (operand_repeats p) (Nat.le_of_succ_le hb) (hs.tail (by simp)) he
            (fun _ => Begins.operator o hp hd) ?_).step (fun b before rest => Rule.chain_succ hop)
            fun _ => id
          intro cat us y m c₁ hcat hy _ hs₁ he
          simpa using ih (Nat.le_of_succ_le hb) (.operator op o hp hd hcat hy) hs₁ he

theorem rule_halts {p : Precedence} (h : Halts bound p.operand (Operand p)) :
    Halts bound p.rule (∃ k, · = .chain p k) := by
  intro budget hb c expected found hs he
  refine h.bind (operand_repeats p) hb hs he (fun _ => Begins.single) ?_
  intro cat ts e n c₁ hcat hd _ hs₁ he
  exact chain_refuses h hb (.single hcat hd) hs₁ he

theorem operand_halts (h : Halts bound Rule.nested (· = .expression)) (p : Precedence) :
    Halts bound p.operand (Operand p) := by
  induction p using operand_induct with
  | unary => exact unary_halts (suffixed_halts h)
  | looser p q hpq ih => exact (rule_halts ih).mono (by rintro _ ⟨k, rfl⟩; exact hpq k)

theorem ternary_refuses (h : Halts bound Rule.nested (· = .expression)) {budget : Nat}
    (hb : budget ≤ bound) {c : Cursor} {expected : Expectation} {found : Located}
    (hs : Stops c.after)
    (he : Rule.ternary Rule.nested budget c = .error (.unexpected expected found)) :
    Refuses (Rule.ternary Rule.nested) (Begins (· = .expression)) budget c expected found := by
  have hop := rule_halts (operand_halts h .equality)
  refine hop.bind (rule_repeats .equality) hb hs he (fun _ => Begins.plain) ?_
  rintro _ ts p n c₁ ⟨k, rfl⟩ hp - hs₁ he
  obtain ⟨before, tok, a, after, rfl⟩ := hs₁.exists_cons
  dsimp only at he
  split at he
  · rename_i ht
    obtain rfl : tok = .symbol .question := ht
    refine (h.bind nested_repeats hb (hs₁.tail (by simp)) he (fun _ => Begins.yes a hp) ?_).cons
      (fun _ _ _ => rfl) fun _ => id
    rintro _ us yes m c₂ rfl hyes - hs₂ he
    refine Refuses.expect hs₂ he (by simpa using Begins.yes a hp hyes.begins) ?_
    intro hs₃ he
    rcases bind_eq_error.1 he with he | ⟨_, _, he⟩
    · have hr := h budget hb _ _ _ hs₃ he
      refine (hr.mono fun vs hvs => ?_).bind
      simpa using Begins.no a c₂.offset hp hyes hvs
    · cases he
  · cases he

theorem nested_halts (bound : Nat) : Halts bound Rule.nested (· = .expression) := by
  induction bound with
  | zero =>
      intro budget hb c expected found hs he
      obtain rfl := Nat.le_zero.1 hb
      cases he
  | succ bound ih =>
      intro budget hb c expected found hs he
      cases budget with
      | zero => cases he
      | succ budget =>
          rw [Rule.nested_succ] at he
          exact (ternary_refuses ih (Nat.le_of_succ_le_succ hb) hs he).succ
            fun b c => Rule.nested_succ c

section

variable {limit : Nat} {us : List Located} {t : Located} {expected : Expectation} {e : Expr}

theorem nested_of_derives {n b : Nat} (h : Derives .expression us e n) (hb : n ≤ b)
    (rest : List Located) (hrest : nextToken rest = .stop) :
    Rule.nested b ⟨[], us ++ rest⟩ = .ok (e, ⟨us.reverse, rest⟩) :=
  (nested_settles h b hrest).1 hb

theorem Fails.not_viable (h : Fails Rule.nested limit us expected t) : ¬ Viable (us ++ [t]) := by
  rintro ⟨rest, e, n, hd⟩
  have hread := nested_of_derives hd (Nat.le_max_right limit n) [] rfl
  have hfail := h (max limit n) (Nat.le_max_left limit n) [] rest
  simp only [List.append_assoc, List.singleton_append, List.append_nil] at hread
  rw [hfail] at hread
  cases hread

theorem Fails.not_sentence (h : Fails Rule.nested limit us expected t) (ht : t.token = .stop) :
    ¬ Sentence us := by
  rintro ⟨e, n, hd⟩
  have hread := nested_of_derives hd (Nat.le_max_right limit n) [t] ht
  rw [h (max limit n) (Nat.le_max_left limit n)] at hread
  cases hread

theorem Passes.not_viable (h : Passes Rule.nested limit us e t.token) : ¬ Viable (us ++ [t]) := by
  rintro ⟨rest, x, n, hd⟩
  have hread := nested_of_derives hd (Nat.le_max_right limit n) [] rfl
  have hpass := h (max limit n) (Nat.le_max_left limit n) [] (t :: rest) rfl
  simp only [List.append_assoc, List.singleton_append, List.append_nil] at hread
  rw [hpass] at hread
  simp at hread

theorem not_viable_of_stop (us : List Located) (ht : t.token = .stop) : ¬ Viable (us ++ [t]) := by
  rintro ⟨rest, e, n, hd⟩
  exact hd.token_ne_stop t (by simp) ht

theorem not_sentence_nil : ¬ Sentence [] := by
  rintro ⟨e, n, hd⟩
  exact hd.ne_nil rfl

end

-- Up to the token the tokens can be completed, with it they cannot; the stop stands for the end.
structure Offends (us : List Located) (t : Located) : Prop where
  viable : Viable us
  not_viable : ¬ Viable (us ++ [t])
  not_sentence : t.token = .stop → ¬ Sentence us

theorem ofTokens_error_at_first_offending {limit : Nat} {ts : List Located} {stop : Located}
    {m : Mistake} (hts : ∀ t ∈ ts, t.token ≠ .stop) (hstop : stop.token = .stop)
    (h : Expr.ofTokens limit (ts ++ [stop]) = .error m) (hdeep : m.cause ≠ .tooDeep limit) :
    ∃ us t rest, ts ++ [stop] = us ++ t :: rest ∧ Offends us t ∧ m.offset = t.offset ∧
      (m.cause = .emptyExpression ∨ ∃ expected, m.cause = .unexpected expected t.token ∧
        m.cause.message = expected.message ++ ", found " ++ t.token.describe) := by
  have hs : Stops (ts ++ [stop]) := ⟨stop, by simp, hstop⟩
  unfold Expr.ofTokens at h
  dsimp only at h
  split at h
  · rename_i hfirst
    cases h
    cases ts with
    | nil =>
        exact ⟨[], stop, [], rfl, ⟨Begins.expression_nil.viable, not_viable_of_stop [] hstop,
          fun _ => not_sentence_nil⟩, rfl, .inl rfl⟩
    | cons t ts => exact (hts t (by simp) hfirst).elim
  · split at h
    · rename_i f hf
      cases f with
      | tooDeep o =>
          cases h
          exact (hdeep rfl).elim
      | unexpected expected found =>
          cases h
          obtain ⟨us, rest, hus, hbegin, hfail⟩ :=
            nested_halts limit limit (Nat.le_refl limit) _ _ _ hs hf
          exact ⟨us, found, rest, hus, ⟨hbegin.viable, hfail.not_viable, hfail.not_sentence⟩, rfl,
            .inr ⟨expected, rfl, rfl⟩⟩
    · rename_i x c₁ hx
      obtain ⟨_, us, n, rfl, hus, hd, -, hpass⟩ := nested_repeats _ _ _ _ hx
      have hs₁ : Stops c₁.after := Stops.of_append (hus ▸ hs) hd.token_ne_stop
      obtain ⟨before, tok, o, rest, rfl⟩ := hs₁.exists_cons
      split at h
      · cases h
      · rename_i hne
        cases h
        exact ⟨us, ⟨tok, o⟩, rest, hus, ⟨hd.begins.viable, hpass.not_viable,
          fun ht => (hne ht).elim⟩, rfl, .inr ⟨.nothingMore, rfl, rfl⟩⟩

theorem ofTokens_error_at_first_offending_of_argument :
    ∃ us t rest, [⟨.name "f", 0⟩, ⟨.symbol .openParen, 1⟩, ⟨.name "x", 2⟩] ++ [⟨.stop, 3⟩] =
        us ++ t :: rest ∧ Offends us t ∧ 2 = t.offset ∧
      (Mistake.Cause.unexpected .noArguments (.name "x") = .emptyExpression ∨
        ∃ expected, Mistake.Cause.unexpected .noArguments (.name "x") = .unexpected expected t.token ∧
          "actions take no arguments, found identifier `x`" =
            expected.message ++ ", found " ++ t.token.describe) := by
  have h : Expr.ofTokens 8 ([⟨.name "f", 0⟩, ⟨.symbol .openParen, 1⟩, ⟨.name "x", 2⟩] ++
      [⟨.stop, 3⟩]) = .error ⟨.unexpected .noArguments (.name "x"), 2⟩ := rfl
  exact ofTokens_error_at_first_offending (by simp) rfl h (by simp)

end TemplateExpr.Grammar
