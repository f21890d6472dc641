import Mathlib.Data.List.Basic
import TemplateExpr.Text.Hex
import TemplateExpr.Text.Units

namespace TemplateExpr.Text

theorem ofUnit_toNat (c : Char) : ofUnit c.toNat = c := by
  have hvalid : ¬ (0xD800 ≤ c.toNat ∧ c.toNat ≤ 0xDFFF) := by
    rcases c.valid with h | ⟨h, -⟩
    · exact fun hs => Nat.not_lt.2 hs.1 h
    · exact fun hs => Nat.not_lt.2 hs.2 h
  rw [ofUnit, isSurrogate, decide_eq_false hvalid, if_neg Bool.false_ne_true, Char.ofNat_toNat]

theorem unitsOf_of_lt {c : Char} (h : c.toNat < 0x10000) : unitsOf c = [c.toNat] :=
  if_pos h

theorem length_unitsOf (c : Char) :
    (unitsOf c).length = 1 + if 0x10000 ≤ c.toNat then 1 else 0 := by
  unfold unitsOf
  split
  · rename_i h
    rw [if_neg (Nat.not_le.2 h)]
    rfl
  · rename_i h
    rw [if_pos (Nat.not_lt.1 h)]
    rfl

theorem length_units (cs : List Char) :
    (units cs).length = cs.length + cs.countP fun c => 0x10000 ≤ c.toNat := by
  induction cs with
  | nil => rfl
  | cons c cs ih =>
      rw [units_cons, List.length_append, length_unitsOf, ih, List.length_cons, List.countP_cons]
      simp only [decide_eq_true_eq]
      omega

theorem map_ofUnit_units {cs : List Char} :
    (units cs).map ofUnit = cs ↔ ∀ c ∈ cs, c.toNat < 0x10000 := by
  constructor
  · intro h
    have hlength := congrArg List.length h
    rw [List.length_map, length_units] at hlength
    have hnone : cs.countP (fun c => 0x10000 ≤ c.toNat) = 0 := by omega
    simpa using hnone
  · intro h
    induction cs with
    | nil => rfl
    | cons c cs ih =>
        obtain ⟨hc, hcs⟩ := List.forall_mem_cons.1 h
        rw [units_cons, unitsOf_of_lt hc, List.singleton_append, List.map_cons, ofUnit_toNat,
          ih hcs]

def IsHexDigit (n : Nat) (c : Char) : Prop :=
  n < 16 ∧ (c = n.digitChar ∨ c = n.digitChar.toUpper)

instance (n : Nat) (c : Char) : Decidable (IsHexDigit n c) :=
  inferInstanceAs (Decidable (_ ∧ _))

structure IsHex (u : Nat) (a b c d : Char) : Prop where
  first : IsHexDigit (u / 0x1000) a
  second : IsHexDigit (u / 0x100 % 0x10) b
  third : IsHexDigit (u / 0x10 % 0x10) c
  fourth : IsHexDigit (u % 0x10) d

instance (u : Nat) (a b c d : Char) : Decidable (IsHex u a b c d) :=
  decidable_of_iff (IsHexDigit (u / 0x1000) a ∧ IsHexDigit (u / 0x100 % 0x10) b ∧
      IsHexDigit (u / 0x10 % 0x10) c ∧ IsHexDigit (u % 0x10) d)
    ⟨fun ⟨ha, hb, hc, hd⟩ => ⟨ha, hb, hc, hd⟩, fun ⟨ha, hb, hc, hd⟩ => ⟨ha, hb, hc, hd⟩⟩

theorem IsHexDigit.hexValue? {n : Nat} {c : Char} (h : IsHexDigit n c) : hexValue? c = some n := by
  have hdigits : ∀ m : Fin 16, Text.hexValue? (Nat.digitChar m) = some m.val ∧
      Text.hexValue? (Nat.digitChar m).toUpper = some m.val := by decide
  obtain ⟨hn, rfl | rfl⟩ := h
  · exact (hdigits ⟨n, hn⟩).1
  · exact (hdigits ⟨n, hn⟩).2

theorem IsHex.unitOfHex? {u : Nat} {a b c d : Char} (h : IsHex u a b c d) :
    unitOfHex? a b c d = some u := by
  have hvalue :
      (u / 0x1000 * 16 + u / 0x100 % 0x10) * 256 + u / 0x10 % 0x10 * 16 + u % 0x10 = u := by
    omega
  simp [Text.unitOfHex?, h.first.hexValue?, h.second.hexValue?, h.third.hexValue?,
    h.fourth.hexValue?, hvalue]

end TemplateExpr.Text
