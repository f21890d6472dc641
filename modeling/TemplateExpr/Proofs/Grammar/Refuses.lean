import TemplateExpr.Proofs.Grammar.Maximal
import TemplateExpr.Proofs.Grammar.Viable

namespace TemplateExpr.Grammar

section

variable {α β : Type} {f g : Nat → Cursor → Except Failure α} {B B' : List Located → Prop}
  {budget : Nat} {c : Cursor} {expected : Expectation} {found : Located}

def Stops (ts : List Located) : Prop :=
  ∃ t ∈ ts, t.token = .stop

theorem Stops.of_append {ts rest : List Located} (h : Stops (ts ++ rest))
    (hts : ∀ t ∈ ts, t.token ≠ .stop) : Stops rest := by
  obtain ⟨t, ht, hstop⟩ := h
  rcases List.mem_append.1 ht with ht | ht
  · exact (hts t ht hstop).elim
  · exact ⟨t, ht, hstop⟩

theorem Stops.tail {t : Located} {ts : List Located} (h : Stops (t :: ts)) (ht : t.token ≠ .stop) :
    Stops ts := by
  have h : Stops ([t] ++ ts) := h
  exact h.of_append (by simpa using ht)

theorem Stops.exists_cons (h : Stops c.after) :
    ∃ before tok o after, c = ⟨before, ⟨tok, o⟩ :: after⟩ := by
  obtain ⟨before, _ | ⟨⟨tok, o⟩, after⟩⟩ := c
  · simp [Stops] at h
  · exact ⟨before, tok, o, after, rfl⟩

def Fails (f : Nat → Cursor → Except Failure α) (budget : Nat) (us : List Located)
    (expected : Expectation) (found : Located) : Prop :=
  ∀ b ≥ budget, ∀ before rest,
    f b ⟨before, us ++ found :: rest⟩ = .error (.unexpected expected found)

-- The tokens before the refused one have the property, and refusal depends on nothing else.
def Refuses (f : Nat → Cursor → Except Failure α) (B : List Located → Prop) (budget : Nat)
    (c : Cursor) (expected : Expectation) (found : Located) : Prop :=
  ∃ us rest, c.after = us ++ found :: rest ∧ B us ∧ Fails f budget us expected found

theorem nextToken_append_cons (us rest rest' : List Located) (t : Located) :
    nextToken (us ++ t :: rest) = nextToken (us ++ t :: rest') := by
  cases us <;> rfl

theorem Refuses.here {before after : List Located}
    (h : ∀ b before rest, f b ⟨before, found :: rest⟩ = .error (.unexpected expected found))
    (hB : B []) : Refuses f B budget ⟨before, found :: after⟩ expected found :=
  ⟨[], after, rfl, hB, fun b _ => h b⟩

theorem Refuses.mono (h : Refuses f B budget c expected found) (hB : ∀ us, B us → B' us) :
    Refuses f B' budget c expected found := by
  obtain ⟨us, rest, hus, hbegin, hf⟩ := h
  exact ⟨us, rest, hus, hB us hbegin, hf⟩

theorem Refuses.congr (h : Refuses f B budget c expected found)
    (hg : ∀ b c', c'.token = c.token → g b c' = f b c') :
    Refuses g B budget c expected found := by
  obtain ⟨us, rest, hus, hbegin, hf⟩ := h
  refine ⟨us, rest, hus, hbegin, ?_⟩
  intro b hb before rest'
  rw [hg, hf b hb]
  rw [Cursor.token_mk, nextToken_append_cons us rest' rest, ← hus]
  exact (Cursor.token_mk c.before c.after).symm

theorem Refuses.bind {g : Nat → α → Except Failure β} (h : Refuses f B budget c expected found) :
    Refuses (fun b c => f b c >>= g b) B budget c expected found := by
  obtain ⟨us, rest, hus, hbegin, hf⟩ := h
  refine ⟨us, rest, hus, hbegin, ?_⟩
  intro b hb before rest
  dsimp only
  rw [hf b hb]
  rfl

theorem Refuses.after {f : Nat → Cursor → Except Failure (α × Cursor)}
    {g : Nat → α × Cursor → Except Failure β} {ts : List Located} {a : α} {c₁ : Cursor}
    (h : Refuses (fun b c => g b (a, c)) B budget c₁ expected found)
    (hpass : Passes f budget ts a c₁.token) (hts : c.after = ts ++ c₁.after)
    (hB : ∀ us, B us → B' (ts ++ us)) :
    Refuses (fun b c => f b c >>= g b) B' budget c expected found := by
  obtain ⟨us, rest, hus, hbegin, hf⟩ := h
  refine ⟨ts ++ us, rest, by rw [hts, hus, List.append_assoc], hB us hbegin, ?_⟩
  intro b hb before rest'
  have hnext : nextToken (us ++ found :: rest') = c₁.token := by
    rw [nextToken_append_cons us rest' rest, ← hus]
    exact (Cursor.token_mk c₁.before c₁.after).symm
  dsimp only
  rw [List.append_assoc, hpass b hb before _ hnext]
  exact hf b hb _ rest'

theorem Refuses.cons {t : Located} {before after : List Located}
    (h : Refuses f B budget ⟨t :: before, after⟩ expected found)
    (hg : ∀ b before rest, g b ⟨before, t :: rest⟩ = f b ⟨t :: before, rest⟩)
    (hB : ∀ us, B us → B' (t :: us)) :
    Refuses g B' budget ⟨before, t :: after⟩ expected found := by
  obtain ⟨us, rest, hus, hbegin, hf⟩ := h
  refine ⟨t :: us, rest, congrArg (t :: ·) hus, hB us hbegin, ?_⟩
  intro b hb before rest'
  rw [List.cons_append, hg]
  exact hf b hb _ rest'

theorem Refuses.succ (h : Refuses f B budget c expected found)
    (hg : ∀ b c, g (b + 1) c = f b c) : Refuses g B (budget + 1) c expected found := by
  obtain ⟨us, rest, hus, hbegin, hf⟩ := h
  refine ⟨us, rest, hus, hbegin, ?_⟩
  intro b hb before rest'
  obtain ⟨b, rfl⟩ := Nat.exists_eq_add_one.2 (Nat.lt_of_lt_of_le budget.succ_pos hb)
  rw [hg]
  exact hf b (Nat.le_of_succ_le_succ hb) _ rest'

theorem Refuses.step {t : Located} {before after : List Located}
    (h : Refuses f B budget ⟨t :: before, after⟩ expected found)
    (hg : ∀ b before rest, g (b + 1) ⟨before, t :: rest⟩ = f b ⟨t :: before, rest⟩)
    (hB : ∀ us, B us → B' (t :: us)) :
    Refuses g B' (budget + 1) ⟨before, t :: after⟩ expected found :=
  (h.cons (g := fun b => g (b + 1)) hg hB).succ fun _ _ => rfl

theorem Refuses.expect {s : Symbol} {e : Expectation} {g : Nat → Cursor → Except Failure α}
    (hs : Stops c.after) (he : (c.expect s e >>= g budget) = .error (.unexpected expected found))
    (hB : B [])
    (hk : Stops c.advance.after → g budget c.advance = .error (.unexpected expected found) →
      Refuses g (fun us => B (⟨.symbol s, c.offset⟩ :: us)) budget c.advance expected found) :
    Refuses (fun b c => c.expect s e >>= g b) B budget c expected found := by
  obtain ⟨before, tok, o, after, rfl⟩ := hs.exists_cons
  by_cases htok : tok = .symbol s
  · subst htok
    rw [Cursor.expect_cons] at he
    exact (hk (hs.tail (by simp)) he).cons (fun b _ _ => by rw [Cursor.expect_cons]; rfl)
      fun _ => id
  · have hx : ∀ before rest, Cursor.expect ⟨before, ⟨tok, o⟩ :: rest⟩ s e =
        .error (.unexpected e ⟨tok, o⟩) :=
      fun before rest => if_neg htok
    rw [hx] at he
    cases he
    exact Refuses.here (fun _ before rest => by rw [hx]; rfl) hB

theorem property_of_propertyName?_eq_none {t : Located} (h : t.token.propertyName? = none)
    (before rest : List Located) :
    Rule.property ⟨before, t :: rest⟩ = .error (.unexpected .propertyName t) := by
  obtain ⟨tok, o⟩ := t
  cases tok <;> first | rfl | cases h

theorem Refuses.property {g : Nat → String × Cursor → Except Failure α} (hs : Stops c.after)
    (he : (Rule.property c >>= g budget) = .error (.unexpected expected found)) (hB : B [])
    (hk : ∀ t name c₁, t.token.propertyName? = some name → Stops c₁.after →
      g budget (name, c₁) = .error (.unexpected expected found) →
      Refuses (fun b c => g b (name, c)) (fun us => B (t :: us)) budget c₁ expected found) :
    Refuses (fun b c => Rule.property c >>= g b) B budget c expected found := by
  obtain ⟨before, tok, o, after, rfl⟩ := hs.exists_cons
  cases hname : tok.propertyName? with
  | none =>
      have hx := property_of_propertyName?_eq_none (t := ⟨tok, o⟩) hname
      rw [hx] at he
      cases he
      exact Refuses.here (fun _ before rest => by rw [hx]; rfl) hB
  | some name =>
      have hx := property_of_propertyName? (t := ⟨tok, o⟩) hname
      have hne : tok ≠ .stop := by
        rintro rfl
        cases hname
      rw [hx] at he
      exact (hk _ _ _ hname (hs.tail hne) he).cons (fun _ _ _ => by rw [hx]; rfl) fun _ => id

end

end TemplateExpr.Grammar
