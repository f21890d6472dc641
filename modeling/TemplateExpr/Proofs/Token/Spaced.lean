import TemplateExpr.Proofs.Token.Spelling

namespace TemplateExpr.Token

def spelling : Token → List Char
  | .name s => s.toList
  | .symbol s => s.spelling.toList
  | _ => []

def Spelled : Token → Prop
  | .name s => IsName s
  | .symbol _ => True
  | _ => False

def spaced : List Token → List Char
  | [] => []
  | t :: ts => t.spelling ++ ' ' :: spaced ts

def located (offset : Nat) : List Token → List Located
  | [] => [⟨.stop, offset⟩]
  | t :: ts => ⟨t, offset⟩ :: located (offset + Text.size t.spelling + 1) ts

theorem Spelled.spells {t : Token} (h : t.Spelled) : Spells t t.spelling := by
  cases t with
  | name s => exact .name h
  | symbol s => exact .symbol s
  | _ => exact h.elim

theorem ends_space (t : Token) (rest : List Char) : Ends t (' ' :: rest) := by
  cases t with
  | number x => exact ⟨rfl, by simp⟩
  | symbol s => cases s <;> first | rfl | trivial
  | name s => rfl
  | word w => rfl
  | _ => trivial

theorem scanFrom_spaced {ts : List Token} (h : ∀ t ∈ ts, t.Spelled) (offset : Nat) :
    scanFrom offset (spaced ts) = .ok (located offset ts) := by
  induction ts generalizing offset with
  | nil => rw [spaced, scanFrom_eq]; rfl
  | cons t ts ih =>
      obtain ⟨c, cs, hc, hstarts, hread⟩ := read_spells (h t (List.mem_cons_self ..)).spells
      have hread := hread offset (' ' :: spaced ts) (ends_space t _)
      have ih := ih (fun t ht => h t (List.mem_cons_of_mem _ ht))
      rw [spaced, located, hc]
      refine scanFrom_of_read (List.forall_mem_nil _) hstarts.isSpace_eq_false hread ?_
      have hspace : ∀ c ∈ [' '], Text.isSpace c = true := List.forall_mem_singleton.2 rfl
      exact (scanFrom_append_of_isSpace hspace _ (spaced ts)).trans (ih _)

theorem scan_spaced {ts : List Token} (h : ∀ t ∈ ts, t.Spelled) :
    scan (String.ofList (spaced ts)) = .ok (located 0 ts) := by
  rw [scan, String.toList_ofList, scanFrom_spaced h]

end TemplateExpr.Token
