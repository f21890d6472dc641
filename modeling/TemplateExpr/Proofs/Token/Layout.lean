import Mathlib.Data.List.TakeWhile
import Mathlib.Data.List.Chain
import TemplateExpr.Proofs.Token.Spelling

namespace TemplateExpr.Token

inductive Layout : List Token → List Char → Prop
  | stop {ws} : (∀ c ∈ ws, Text.isSpace c = true) → Layout [] ws
  | token {ws t cs ts rest} : (∀ c ∈ ws, Text.isSpace c = true) → Spells t cs → Layout ts rest →
      Layout (t :: ts) (ws ++ (cs ++ rest))

theorem exists_layout {ts : List Token} (h : ∀ t ∈ ts, ∃ cs, Spells t cs) : ∃ cs, Layout ts cs := by
  induction ts with
  | nil => exact ⟨[], .stop (by simp)⟩
  | cons t ts ih =>
      obtain ⟨cs, hcs⟩ := h t List.mem_cons_self
      obtain ⟨rest, hrest⟩ := ih fun u hu => h u (List.mem_cons_of_mem _ hu)
      exact ⟨[] ++ (cs ++ rest), .token (by simp) hcs hrest⟩

def isWordlike : Token → Bool
  | .number _ => true
  | .name _ => true
  | .word _ => true
  | _ => false

structure Adjoins (t u : Token) : Prop where
  wordlike : t.isWordlike = true → u.isWordlike = false
  number : t = .symbol .dot → ∀ x, u ≠ .number x
  equals : t ∈ [.symbol .bang, .symbol .less, .symbol .greater] → u ≠ .symbol .strictEqual

section

variable {t : Token} {c : Char} (h : Starts t c)
include h

theorem Starts.isIdentifierPart (ht : t.isWordlike = false) : Text.isIdentifierPart c = false := by
  cases t with
  | text => rcases h with rfl | rfl <;> rfl
  | symbol s => cases s <;> (cases h; rfl)
  | stop => exact h.elim
  | _ => cases ht

theorem Starts.isDigit (ht : ∀ x, t ≠ .number x) : c.isDigit = false := by
  cases t with
  | number x => exact (ht x rfl).elim
  | text => rcases h with rfl | rfl <;> rfl
  | symbol s => cases s <;> (cases h; rfl)
  | stop => exact h.elim
  | _ => exact (isIdentifierStart_cases h).2.1

theorem Starts.eq_symbol (hc : c = '=' ∨ c = '.') :
    ∃ s, t = .symbol s ∧ s.spelling.toList.head? = some c := by
  cases t with
  | symbol s => exact ⟨s, rfl, h⟩
  | number => rcases hc with rfl | rfl <;> cases h
  | text => rcases hc with rfl | rfl <;> simp [Starts] at h
  | stop => exact h.elim
  | _ => rcases hc with rfl | rfl <;> cases h

theorem Starts.eq_equals (hc : c = '=') : t = .symbol .strictEqual := by
  obtain ⟨s, rfl, hs⟩ := h.eq_symbol (.inl hc)
  subst hc
  cases s <;> first | rfl | simp [Symbol.spelling] at hs

theorem Starts.eq_dot (hc : c = '.') : t = .symbol .dot := by
  obtain ⟨s, rfl, hs⟩ := h.eq_symbol (.inr hc)
  subst hc
  cases s <;> first | rfl | simp [Symbol.spelling] at hs

end

theorem startsWith_layout {p : Char → Bool} {ts : List Token} {cs : List Char} (h : Layout ts cs)
    (hspace : ∀ c, Text.isSpace c = true → p c = false)
    (hp : ∀ t ∈ ts.head?, ∀ c, Starts t c → p c = false) : startsWith p cs = false := by
  cases h with
  | stop hws =>
      cases cs with
      | nil => rfl
      | cons c cs => exact hspace c (hws c List.mem_cons_self)
  | @token ws t cs ts rest hws hcs _ =>
      cases ws with
      | nil =>
          obtain ⟨c, ds, rfl, hstarts, -⟩ := read_spells hcs
          exact hp t rfl c hstarts
      | cons c ws => exact hspace c (hws c List.mem_cons_self)

theorem Layout.of_dot {ts : List Token} {cs : List Char} (h : Layout ts ('.' :: cs)) :
    ∃ us, ts = .symbol .dot :: us ∧ Layout us cs := by
  generalize hds : '.' :: cs = ds at h
  cases h with
  | stop hws =>
      subst hds
      exact absurd (hws '.' List.mem_cons_self) (by decide)
  | @token ws t cs' us rest hws hcs hrest =>
      cases ws with
      | cons c ws =>
          obtain ⟨rfl, -⟩ := List.cons.inj hds
          exact absurd (hws '.' List.mem_cons_self) (by decide)
      | nil =>
          obtain ⟨c, ds, rfl, hstarts, -⟩ := read_spells hcs
          obtain ⟨rfl, rfl⟩ := List.cons.inj hds
          obtain rfl := hstarts.eq_dot rfl
          refine ⟨us, rfl, ?_⟩
          cases hcs
          exact hrest

theorem ends_of_layout {t : Token} {ts : List Token} {cs : List Char} (h : Layout ts cs)
    (hadj : (t :: ts).IsChain Adjoins) : Ends t cs := by
  obtain ⟨hnext, hchain⟩ := List.isChain_cons.1 hadj
  have hpart (ht : t.isWordlike = true) : startsWith Text.isIdentifierPart cs = false :=
    startsWith_layout h (fun c hc => eq_false_of_isSpace hc rfl)
      fun u hu c hc => hc.isIdentifierPart ((hnext u hu).wordlike ht)
  have hequals (ht : t ∈ [.symbol .bang, .symbol .less, .symbol .greater]) :
      startsWith (· == '=') cs = false := by
    refine startsWith_layout h
      (fun c hc => eq_false_of_isSpace (p := (· == '=')) hc rfl) ?_
    intro u hu c hc
    exact beq_eq_false_iff_ne.2 fun he => (hnext u hu).equals ht (hc.eq_equals he)
  cases t with
  | number x =>
      refine ⟨hpart rfl, ?_⟩
      rintro ds rfl
      obtain ⟨us, rfl, hus⟩ := h.of_dot
      exact startsWith_layout hus (fun c hc => eq_false_of_isSpace hc rfl)
        fun u hu c hc => hc.isDigit (((List.isChain_cons.1 hchain).1 u hu).number rfl)
  | name s => exact hpart rfl
  | word w => exact hpart rfl
  | symbol s =>
      cases s
      case dot =>
        exact startsWith_layout h (fun c hc => eq_false_of_isSpace hc rfl)
          fun u hu c hc => hc.isDigit ((hnext u hu).number rfl)
      case bang => exact hequals (by simp)
      case less => exact hequals (by simp)
      case greater => exact hequals (by simp)
      all_goals trivial
  | _ => trivial

theorem scanFrom_layout {ts : List Token} {cs : List Char} (h : Layout ts cs)
    (hadj : ts.IsChain Adjoins) (offset : Nat) :
    ∃ us stop, scanFrom offset cs = .ok (us ++ [stop]) ∧ us.map (·.token) = ts ∧
      stop.token = .stop := by
  induction h generalizing offset with
  | @stop ws hws =>
      have hscan := scanFrom_eq offset ws
      rw [List.dropWhile_eq_nil_iff.2 hws] at hscan
      exact ⟨[], _, hscan, rfl, rfl⟩
  | @token ws t cs ts rest hws hcs hrest ih =>
      obtain ⟨c, ds, rfl, hstarts, hread⟩ := read_spells hcs
      have hread := hread (offset + Text.size ws) rest (ends_of_layout hrest hadj)
      obtain ⟨us, stop, hrec, hus, hstop⟩ := ih (List.isChain_cons.1 hadj).2 _
      exact ⟨_ :: us, stop, scanFrom_of_read hws hstarts.isSpace_eq_false hread hrec,
        congrArg (t :: ·) hus, hstop⟩

end TemplateExpr.Token
