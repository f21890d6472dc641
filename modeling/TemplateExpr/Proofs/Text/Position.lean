import TemplateExpr.Proofs.Token.Tiling

namespace TemplateExpr.Text

variable {n pos start : Nat} {c : Char} {text cs before rest : List Char}

/-- The characters up to so many bytes and those behind them, unless one of them is split or the
text is shorter. -/
def splitAt? : Nat → List Char → Option (List Char × List Char)
  | 0, cs => some ([], cs)
  | _ + 1, [] => none
  | n + 1, c :: cs =>
      if c.utf8Size ≤ n + 1 then
        (splitAt? (n + 1 - c.utf8Size) cs).map fun (before, rest) => (c :: before, rest)
      else none

theorem splitAt?_append (before rest : List Char) :
    splitAt? (size before) (before ++ rest) = some (before, rest) := by
  induction before with
  | nil => cases rest <;> rfl
  | cons c before ih =>
      have hpos : size (c :: before) ≠ 0 := Nat.ne_of_gt (size_pos (List.cons_ne_nil c before))
      obtain ⟨n, hn⟩ := Nat.exists_eq_add_one_of_ne_zero hpos
      rw [size_cons] at hn
      have hle : c.utf8Size ≤ n + 1 := hn ▸ Nat.le_add_right _ _
      have hrest : n + 1 - c.utf8Size = size before := by rw [← hn, Nat.add_sub_cancel_left]
      rw [size_cons, hn, List.cons_append, splitAt?, if_pos hle, hrest, ih]
      rfl

theorem splitAt?_eq_some : splitAt? n cs = some (before, rest) ↔
    cs = before ++ rest ∧ n = size before := by
  constructor
  · intro h
    fun_induction splitAt? n cs generalizing before rest with
    | case1 => cases h; exact ⟨rfl, rfl⟩
    | case2 => cases h
    | case3 n c cs hle ih =>
        obtain ⟨⟨b, r⟩, hsplit, he⟩ := Option.map_eq_some_iff.1 h
        cases he
        obtain ⟨rfl, hn⟩ := ih hsplit
        refine ⟨rfl, ?_⟩
        rw [size_cons]
        omega
    | case4 => cases h
  · rintro ⟨rfl, rfl⟩
    exact splitAt?_append before rest

def StandsAt (text : List Char) (pos : Nat) (rest : List Char) : Prop :=
  ∃ before, text = before ++ rest ∧ pos = size before

def Boundary (text : List Char) (pos : Nat) : Prop :=
  ∃ rest, StandsAt text pos rest

theorem StandsAt.boundary (h : StandsAt text pos rest) : Boundary text pos :=
  ⟨rest, h⟩

theorem standsAt_zero (text : List Char) : StandsAt text 0 text :=
  ⟨[], rfl, rfl⟩

theorem StandsAt.append (h : StandsAt text pos (cs ++ rest)) :
    StandsAt text (pos + size cs) rest := by
  obtain ⟨before, rfl, rfl⟩ := h
  exact ⟨before ++ cs, (List.append_assoc ..).symm, (size_append before cs).symm⟩

theorem StandsAt.add_size (h : StandsAt text pos rest) : pos + size rest = size text := by
  obtain ⟨before, rfl, rfl⟩ := h
  exact (size_append before rest).symm

theorem StandsAt.next (h : StandsAt text pos (c :: rest)) :
    StandsAt text (pos + c.utf8Size) rest := by
  have hcons : StandsAt text pos ([c] ++ rest) := h
  exact hcons.append

theorem StandsAt.splitAt?_eq (h : StandsAt text pos rest) :
    ∃ before, splitAt? pos text = some (before, rest) := by
  obtain ⟨before, rfl, rfl⟩ := h
  exact ⟨before, splitAt?_append before rest⟩

theorem StandsAt.splitAt?_between (hstart : StandsAt text start (cs ++ rest))
    (h : StandsAt text pos rest) :
    ∃ before, splitAt? pos text = some (before, rest) ∧ ∃ a, splitAt? start before = some (a, cs) := by
  obtain ⟨a, ha, rfl⟩ := hstart
  obtain ⟨before, hb, rfl⟩ := h
  have happend : before ++ rest = a ++ cs ++ rest := by
    rw [← hb, ha, List.append_assoc]
  obtain rfl := List.append_cancel_right happend
  exact ⟨a ++ cs, hb ▸ splitAt?_append _ rest, a, splitAt?_append a cs⟩

theorem isValid_iff_boundary {s : String} :
    String.Pos.Raw.IsValid s ⟨pos⟩ ↔ Boundary s.toList pos := by
  rw [String.Pos.Raw.isValid_iff_exists_append]
  constructor
  · rintro ⟨a, b, rfl, hpos⟩
    refine ⟨b.toList, a.toList, String.toList_append, ?_⟩
    rw [Token.size_toList]
    exact congrArg String.Pos.Raw.byteIdx hpos
  · rintro ⟨rest, before, h, rfl⟩
    refine ⟨String.ofList before, String.ofList rest, ?_, ?_⟩
    · rw [← String.ofList_append, ← h, String.ofList_toList]
    · rw [← String.toList_ofList (l := before), Token.size_toList, String.toList_ofList]
      rfl

theorem splitAt?_isSome_iff_isValid (s : String) (pos : Nat) :
    (splitAt? pos s.toList).isSome ↔ String.Pos.Raw.IsValid s ⟨pos⟩ := by
  rw [isValid_iff_boundary, Option.isSome_iff_exists, Prod.exists]
  simp only [splitAt?_eq_some, Boundary, StandsAt]
  exact exists_comm

theorem Boundary.le_utf8ByteSize {s : String} (h : Boundary s.toList pos) : pos ≤ s.utf8ByteSize := by
  obtain ⟨rest, before, hs, rfl⟩ := h
  rw [← Token.size_toList, hs, size_append]
  exact Nat.le_add_right _ _

end TemplateExpr.Text
