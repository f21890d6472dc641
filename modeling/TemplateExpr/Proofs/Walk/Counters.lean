import TemplateExpr.Proofs.Walk.Parser

namespace TemplateExpr

theorem Cursor.after_ne_nil {c : Cursor} (h : c.token ≠ .stop) : c.after ≠ [] := by
  rw [Cursor.after_eq_cons h]
  exact List.cons_ne_nil _ _

theorem Cursor.after_ne_nil_of_symbol {c : Cursor} {s : Symbol} (h : c.token = .symbol s) :
    c.after ≠ [] :=
  Cursor.after_ne_nil (by simp [h])

theorem Cursor.length_after_advance_le (c : Cursor) : c.advance.after.length ≤ c.after.length := by
  obtain ⟨before, _ | ⟨t, after⟩⟩ := c
  · exact Nat.le_refl _
  · exact Nat.le_succ _

namespace Input

variable {α β : Type} {i : Input} {s : Counters} {c : Cursor} {t : Token}

structure At (i : Input) (s : Counters) (c : Cursor) : Prop where
  tokens : c.tokens = i.tokens
  pos : c.before.length = s.pos

theorem exists_at (h : s.pos ≤ i.tokens.length) : ∃ c, i.At s c := by
  refine ⟨⟨(i.tokens.take s.pos).reverse, i.tokens.drop s.pos⟩, ?_, ?_⟩
  · simp [Cursor.tokens]
  · rw [List.length_reverse, List.length_take_of_le h]

namespace At

theorem length (h : i.At s c) : s.pos + c.after.length = i.tokens.length := by
  rw [← h.tokens, ← h.pos, Cursor.tokens, List.length_append, List.length_reverse]

theorem pos_le (h : i.At s c) : s.pos ≤ i.tokens.length :=
  Nat.le.intro h.length

theorem getElem? (h : i.At s c) : i.tokens[s.pos]? = c.after.head? := by
  have hlen : s.pos = c.before.reverse.length + 0 := by simp [h.pos]
  rw [← h.tokens, Cursor.tokens, hlen, List.getElem?_append_right (by omega), Nat.add_sub_cancel_left,
    List.head?_eq_getElem?]

theorem tokenAt (h : i.At s c) : i.tokenAt s.pos = c.token := by
  rw [Input.tokenAt, h.getElem?]
  obtain ⟨_ | ⟨u, before⟩, _ | ⟨v, after⟩⟩ := c <;> rfl

theorem offsetAt (h : i.At s c) : i.offsetAt s.pos = c.offset := by
  rw [Input.offsetAt, h.getElem?, ← h.tokens]
  obtain ⟨_ | ⟨u, before⟩, _ | ⟨v, after⟩⟩ := c <;> simp [Cursor.offset, Cursor.here, Cursor.tokens]

theorem exists_offset (h : i.At s c) (hne : i.tokens ≠ []) :
    ∃ u ∈ i.tokens, u.offset = c.offset := by
  rw [← h.tokens] at hne ⊢
  obtain ⟨_ | ⟨u, before⟩, _ | ⟨v, after⟩⟩ := c
  · exact absurd rfl hne
  · exact ⟨v, by simp [Cursor.tokens], rfl⟩
  · exact ⟨u, by simp [Cursor.tokens], rfl⟩
  · exact ⟨v, by simp [Cursor.tokens], rfl⟩

theorem exists_nearest (h : i.At s c) (hne : i.tokens ≠ []) :
    ∃ u ∈ i.tokens, u.offset = c.nearest.offset := by
  obtain ⟨u, hu, ho⟩ := h.exists_offset hne
  refine ⟨u, hu, ho.trans ?_⟩
  obtain ⟨_ | ⟨v, before⟩, _ | ⟨w, after⟩⟩ := c <;> rfl

theorem next (h : i.At s c) (ht : c.after ≠ []) : i.At s.next c.advance := by
  refine ⟨by rw [Cursor.tokens_advance, h.tokens], ?_⟩
  obtain ⟨before, _ | ⟨u, after⟩⟩ := c
  · exact absurd rfl ht
  · simpa using h.pos

theorem deeper (h : i.At s c) : i.At s.deeper c :=
  ⟨h.tokens, h.pos⟩

theorem pos_lt (h : i.At s c) (hne : c.after ≠ []) : s.pos < i.tokens.length := by
  have := h.length
  have := List.length_pos_iff.2 hne
  omega

theorem step (h : i.At s c) (hne : c.after ≠ []) : i.step s = some (.ok (), s.next) :=
  if_pos (h.pos_lt hne)

theorem peek (h : i.At s c) : i.peek s = some (.ok c.token, s) := by
  rw [← h.tokenAt]
  rfl

theorem offset (h : i.At s c) : i.offset s = some (.ok c.offset, s) := by
  rw [← h.offsetAt]
  rfl

theorem eat_of_eq (h : i.At s c) (ht : c.token = t) (hne : t ≠ .stop) :
    i.eat t s = some (.ok true, s.next) := by
  have hafter : c.after ≠ [] := Cursor.after_ne_nil (ht ▸ hne)
  rw [eat, Walk.bind_of_ok h.peek, if_pos ht, Walk.bind_of_ok (h.step hafter)]
  rfl

theorem eat_of_ne (h : i.At s c) (ht : c.token ≠ t) : i.eat t s = some (.ok false, s) := by
  rw [eat, Walk.bind_of_ok h.peek, if_neg ht]
  rfl

theorem advance_of_ne_nil (h : i.At s c) (hne : c.after ≠ []) :
    i.advance s = some (.ok c.token, s.next) := by
  rw [advance, Walk.bind_of_ok h.peek, Walk.bind_of_ok (Walk.get_apply s), if_pos (h.pos_lt hne),
    Walk.bind_of_ok (h.step hne)]
  rfl

theorem advance_of_nil (h : i.At s c) (hnil : c.after = []) :
    i.advance s = some (.ok c.token, s) := by
  have hlen := h.length
  rw [hnil, List.length_nil] at hlen
  rw [advance, Walk.bind_of_ok h.peek, Walk.bind_of_ok (Walk.get_apply s), if_neg (by omega)]
  rfl

theorem eatOperator_of_some {operator? : Token → Option BinaryOp} {op : BinaryOp} (h : i.At s c)
    (hop : operator? c.token = some op) (hne : c.after ≠ []) :
    i.eatOperator operator? s = some (.ok (some op), s.next) := by
  rw [eatOperator, Walk.bind_of_ok h.peek, hop]
  dsimp only
  rw [Walk.bind_of_ok (h.step hne)]
  rfl

theorem eatOperator_of_none {operator? : Token → Option BinaryOp} (h : i.At s c)
    (hop : operator? c.token = none) : i.eatOperator operator? s = some (.ok none, s) := by
  rw [eatOperator, Walk.bind_of_ok h.peek, hop]
  rfl

theorem unexpected (h : i.At s c) (e : Expectation) :
    i.unexpected (α := α) e s = some (.error ⟨.unexpected e c.token, c.offset⟩, s) := by
  rw [Input.unexpected, Walk.bind_of_ok h.peek, Walk.bind_of_ok h.offset]
  rfl

-- A token that was taken and is put back is the one that the mistake names, at the end the last one.
theorem refuse (h : i.At s c) (hne : i.tokens ≠ []) (e : Expectation) {f : Token → Walk Counters α}
    (hf : f c.token = (do putBack; i.unexpected e)) : ∃ t, t.pos ≤ s.pos ∧ t.depth = s.depth ∧
      (i.advance >>= f) s = some (.error ⟨.unexpected e c.nearest.token, c.nearest.offset⟩, t) := by
  obtain ⟨before, _ | ⟨u, after⟩⟩ := c
  · obtain ⟨u, before, rfl⟩ : ∃ u bs, before = u :: bs := by
      refine List.exists_cons_of_ne_nil ?_
      rintro rfl
      exact hne h.tokens.symm
    have hpos : s.pos = before.length + 1 := h.pos.symm
    have hback : i.At { s with pos := before.length } ⟨before, [u]⟩ := by
      refine ⟨?_, rfl⟩
      rw [← h.tokens]
      simp [Cursor.tokens]
    have hput : putBack s = some (.ok (), { s with pos := before.length }) := by
      rw [putBack, Counters.back?, hpos]
      rfl
    refine ⟨{ s with pos := before.length }, ?_, rfl, ?_⟩
    · rw [hpos]
      exact Nat.le_succ _
    · rw [Walk.bind_of_ok (h.advance_of_nil rfl), hf, Walk.bind_of_ok hput]
      exact hback.unexpected e
  · refine ⟨s, Nat.le_refl _, rfl, ?_⟩
    rw [Walk.bind_of_ok (h.advance_of_ne_nil (List.cons_ne_nil _ _)), hf,
      Walk.bind_of_ok (a := ()) (t := s) rfl]
    exact h.unexpected e

theorem enter_of_lt (h : s.depth < i.limit) : i.enter s = some (.ok (), s.deeper) := by
  have hlimit : ¬ i.limit < s.deeper.depth := Nat.not_lt.2 h
  rw [enter, Walk.bind_of_ok (a := ()) (t := s.deeper) rfl, Walk.bind_of_ok (Walk.get_apply _),
    if_neg hlimit]
  rfl

theorem enter_of_le (h : i.At s c) (hle : i.limit ≤ s.depth) :
    i.enter s = some (.error ⟨.tooDeep i.limit, c.offset⟩, s.deeper) := by
  have hlimit : i.limit < s.deeper.depth := Nat.lt_succ_of_le hle
  rw [enter, Walk.bind_of_ok (a := ()) (t := s.deeper) rfl, Walk.bind_of_ok (Walk.get_apply _),
    if_pos hlimit, Walk.bind_of_ok h.deeper.offset]
  rfl

end At

end Input

end TemplateExpr
