import TemplateExpr.Proofs.Token.Number
import TemplateExpr.Proofs.Walk.Scanner

namespace TemplateExpr.Scanner

open Text

variable {l : Scanner} {cs lexeme : List Char} {pos start n : Nat} {c : Char} {p : Char → Bool}

theorem rest_apply (h : StandsAt l.text pos cs) : l.rest pos = some (.ok cs, pos) := by
  obtain ⟨before, hsplit⟩ := h.splitAt?_eq
  rw [rest, hsplit]
  rfl

theorem since_apply (hstart : StandsAt l.text start (lexeme ++ cs)) (h : StandsAt l.text pos cs) :
    l.since start pos = some (.ok lexeme, pos) := by
  obtain ⟨before, hsplit, a, hbefore⟩ := hstart.splitAt?_between h
  rw [since, hsplit]
  change (splitAt? start before).bind _ = _
  rw [hbefore]
  rfl

theorem moveBy_apply (h : StandsAt l.text (pos + n) cs) :
    l.moveBy n pos = some (.ok (), pos + n) := by
  obtain ⟨before, hsplit⟩ := h.splitAt?_eq
  rw [moveBy, hsplit]
  rfl

theorem peek_apply (h : StandsAt l.text pos cs) : l.peek pos = some (.ok cs.head?, pos) := by
  rw [peek, Walk.bind_of_ok (rest_apply h)]
  rfl

theorem peekSecond_apply (h : StandsAt l.text pos cs) :
    l.peekSecond pos = some (.ok cs.tail.head?, pos) := by
  rw [peekSecond, Walk.bind_of_ok (rest_apply h)]
  rfl

theorem advance_cons (h : StandsAt l.text pos (c :: cs)) :
    l.advance pos = some (.ok (some c), pos + c.utf8Size) := by
  rw [advance, Walk.bind_of_ok (peek_apply h)]
  exact Walk.bind_of_ok (moveBy_apply h.next) _

theorem advance_nil (h : StandsAt l.text pos []) : l.advance pos = some (.ok none, pos) := by
  rw [advance, Walk.bind_of_ok (peek_apply h)]
  rfl

theorem eat_cons (h : StandsAt l.text pos (c :: cs)) :
    l.eat c pos = some (.ok true, pos + c.utf8Size) := by
  rw [eat, Walk.bind_of_ok (peek_apply h), if_pos List.head?_cons]
  exact Walk.bind_of_ok (moveBy_apply h.next) _

theorem eat_of_ne (h : StandsAt l.text pos cs) (hc : cs.head? ≠ some c) :
    l.eat c pos = some (.ok false, pos) := by
  rw [eat, Walk.bind_of_ok (peek_apply h), if_neg hc]
  rfl

def OneByte (p : Char → Bool) : Prop :=
  ∀ c, p c = true → c.utf8Size = 1

theorem val_le_of_isAlpha (h : c.isAlpha = true) : c.val ≤ 127 := by
  rcases Bool.or_eq_true_iff.1 h with hupper | hlower
  · exact UInt32.le_trans (of_decide_eq_true hupper).2 (by decide)
  · exact UInt32.le_trans (of_decide_eq_true (Bool.and_eq_true_iff.1 hlower).2) (by decide)

theorem oneByte_isIdentifierPart : OneByte isIdentifierPart := by
  intro c hc
  rw [Char.utf8Size_eq_one_iff]
  simp only [isIdentifierPart, isIdentifierStart, Bool.or_eq_true, beq_iff_eq] at hc
  rcases hc with ((h | rfl) | rfl) | h
  · exact val_le_of_isAlpha h
  · decide
  · decide
  · exact UInt32.le_iff_toNat_le.2 (Nat.le_trans (Char.isDigit_iff_toNat.1 h).2 (by decide))

theorem oneByte_isDigit : OneByte Char.isDigit := fun c hc =>
  oneByte_isIdentifierPart c (Token.isIdentifierPart_of_isDigit hc)

theorem oneByte_isSpace : OneByte isSpace := by
  intro c hc
  simp only [isSpace, Bool.or_eq_true, beq_iff_eq] at hc
  rcases hc with ((rfl | rfl) | rfl) | rfl <;> rfl

theorem eatByte_of_pos (hp : OneByte p) (h : StandsAt l.text pos (c :: cs)) (hc : p c = true) :
    l.eatByte p pos = some (.ok true, pos + 1) := by
  have hhead : (c :: cs).head?.any p = true := hc
  have hnext := h.next
  rw [hp c hc] at hnext
  rw [eatByte, Walk.bind_of_ok (peek_apply h), if_pos hhead]
  exact Walk.bind_of_ok (moveBy_apply hnext) _

theorem eatByte_of_neg (h : StandsAt l.text pos cs) (hcs : Token.startsWith p cs = false) :
    l.eatByte p pos = some (.ok false, pos) := by
  have hhead : ¬ cs.head?.any p = true := by
    rw [← Token.startsWith, hcs]
    decide
  rw [eatByte, Walk.bind_of_ok (peek_apply h), if_neg hhead]
  rfl

theorem skip_apply (hp : OneByte p) (h : StandsAt l.text pos cs) :
    l.skip p pos = some (.ok (), pos + size (cs.takeWhile p)) := by
  induction cs generalizing pos with
  | nil =>
      rw [skip, Walk.bind_of_ok (eatByte_of_neg h rfl)]
      rfl
  | cons c cs ih =>
      rw [skip]
      by_cases hc : p c = true
      · have hnext := h.next
        rw [hp c hc] at hnext
        rw [Walk.bind_of_ok (eatByte_of_pos hp h hc), if_pos rfl, ih hnext,
          List.takeWhile_cons_of_pos hc, size_cons, hp c hc, Nat.add_assoc]
      · have hstart : Token.startsWith p (c :: cs) = false := by simpa [Token.startsWith] using hc
        rw [Walk.bind_of_ok (eatByte_of_neg h hstart), List.takeWhile_cons_of_neg hc]
        rfl

theorem standsAt_dropWhile (p : Char → Bool) (h : StandsAt l.text pos cs) :
    StandsAt l.text (pos + size (cs.takeWhile p)) (cs.dropWhile p) := by
  rw [← List.takeWhile_append_dropWhile (p := p) (l := cs)] at h
  exact h.append

theorem eatDigits_apply (h : StandsAt l.text pos cs) :
    l.eatDigits pos = some (.ok (size (cs.takeWhile Char.isDigit)),
      pos + size (cs.takeWhile Char.isDigit)) := by
  rw [eatDigits, Walk.bind_of_ok (Walk.get_apply pos), Walk.bind_of_ok (skip_apply oneByte_isDigit h),
    Walk.bind_of_ok (Walk.get_apply _), Nat.add_sub_cancel_left]
  rfl

structure Reaches {α : Type} (l : Scanner) (a : α) (t : Nat) (r : α × List Char) : Prop where
  value : a = r.1
  place : StandsAt l.text t r.2

/-- The mistake stands at a boundary, and it is not a numeral that cannot be read. -/
structure Fails (l : Scanner) (m : Mistake) (t : Nat) (m' : Mistake) : Prop where
  mistake : m = m'
  offset : Boundary l.text m.offset
  cause : m.cause ≠ .malformedNumber
  place : Boundary l.text t

def Reads {α : Type} (l : Scanner) (x : Walk Nat α) (pos : Nat)
    (o : Except Mistake (α × List Char)) : Prop :=
  Walk.Follows x pos (Reaches l) (Fails l) o

namespace Reads

variable {α β : Type} {x y : Walk Nat α} {o : Except Mistake (α × List Char)}

theorem pure {a : α} (h : StandsAt l.text pos cs) : Reads l (Pure.pure a) pos (.ok (a, cs)) :=
  .ok rfl ⟨rfl, h⟩

theorem throw {m : Mistake} (h : StandsAt l.text pos cs) (hoffset : Boundary l.text m.offset)
    (hcause : m.cause ≠ .malformedNumber) : Reads l (α := α) (throw m) pos (.error m) :=
  .error rfl ⟨rfl, hoffset, hcause, h.boundary⟩

theorem of_eq {t : Nat} (h : Reads l y t o) (hx : x pos = y t) : Reads l x pos o :=
  Walk.Follows.of_eq h hx

theorem bind {f : α → Walk Nat β} {g : α × List Char → Except Mistake (β × List Char)}
    (h : Reads l x pos o)
    (hf : ∀ a t cs, StandsAt l.text t cs → Reads l (f a) t (g (a, cs))) :
    Reads l (x >>= f) pos (o >>= g) := by
  refine Walk.Follows.bind h ?_
  rintro _ t ⟨a, cs⟩ ⟨rfl, hplace⟩
  exact hf _ t cs hplace

end Reads

end TemplateExpr.Scanner
