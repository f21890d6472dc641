namespace TemplateExpr

def splitAtFirst (d : List Char) : List Char → Option (List Char × List Char)
  | [] => if d.isEmpty then some ([], []) else none
  | c :: cs =>
      if d.isPrefixOf (c :: cs) then some ([], (c :: cs).drop d.length)
      else (splitAtFirst d cs).map fun p => (c :: p.1, p.2)

theorem append_of_splitAtFirst {d cs a b : List Char} (h : splitAtFirst d cs = some (a, b)) :
    cs = a ++ d ++ b := by
  fun_induction splitAtFirst d cs generalizing a b with
  | case1 h' => simp_all
  | case2 => simp at h
  | case3 c cs hp =>
      simp only [Option.some.injEq, Prod.mk.injEq] at h
      obtain ⟨rfl, rfl⟩ := h
      simpa using List.prefix_iff_eq_append.1 (List.isPrefixOf_iff_prefix.1 hp) |>.symm
  | case4 c cs _ ih =>
      obtain ⟨⟨a', b'⟩, hs, h⟩ := Option.map_eq_some_iff.1 h
      simp only [Prod.mk.injEq] at h
      obtain ⟨rfl, rfl⟩ := h
      simp [ih hs]

structure Delimiters where
  opening : List Char
  closing : List Char

structure Placeholder where
  before : List Char
  inner : List Char
  after : List Char

/-- A text as its placeholders, each with the text before it, and the text after the last one. -/
structure Segments where
  parts : List (List Char × List Char)
  last : List Char

namespace Delimiters

/-- The leftmost match of a pattern: the opening delimiter, one character or more of any kind, line
feeds among them, and as few as can be, and the closing delimiter. Where the first opening delimiter
has no match no later one has, so the search need not go on. -/
def placeholder? (d : Delimiters) (cs : List Char) : Option Placeholder :=
  match splitAtFirst d.opening cs with
  | some (before, c :: rest) =>
      (splitAtFirst d.closing rest).map fun p => ⟨before, c :: p.1, p.2⟩
  | _ => none

theorem append_of_placeholder? {d : Delimiters} {cs : List Char} {p : Placeholder}
    (h : d.placeholder? cs = some p) :
    p.inner ≠ [] ∧ cs = p.before ++ d.opening ++ p.inner ++ d.closing ++ p.after := by
  unfold placeholder? at h
  split at h
  · rename_i before c rest hs
    obtain ⟨q, hq, rfl⟩ := Option.map_eq_some_iff.1 h
    rw [append_of_splitAtFirst hs, append_of_splitAtFirst hq]
    simp
  · contradiction

theorem after_length_lt {d : Delimiters} {cs : List Char} {p : Placeholder}
    (h : d.placeholder? cs = some p) : p.after.length < cs.length := by
  obtain ⟨hne, e⟩ := append_of_placeholder? h
  have := List.length_pos_iff.2 hne
  rw [e]
  simp only [List.length_append]
  omega

/-- The matches from left to right, each sought behind the one before it. -/
def segments (d : Delimiters) (cs : List Char) : Segments :=
  match _h : d.placeholder? cs with
  | none => ⟨[], cs⟩
  | some p =>
      let rest := d.segments p.after
      ⟨(p.before, p.inner) :: rest.parts, rest.last⟩
termination_by cs.length
decreasing_by exact after_length_lt _h

end Delimiters

end TemplateExpr
