import TemplateExpr.Proofs.Text.Units

namespace TemplateExpr.Text

theorem isSurrogate_toNat (c : Char) : isSurrogate c.toNat = false := by
  refine decide_eq_false fun hs => ?_
  rcases c.valid with h | ⟨h, -⟩
  · exact Nat.not_lt.2 hs.1 h
  · exact Nat.not_lt.2 hs.2 h

theorem isHighHalf_eq_false {u : Nat} (h : isSurrogate u = false) : isHighHalf u = false := by
  have hu := of_decide_eq_false h
  exact decide_eq_false fun hhigh => hu (by omega)

theorem ofUnits?_cons {u : Nat} (h : isSurrogate u = false) (us : List Nat) :
    ofUnits? (u :: us) = (ofUnits? us).map (Char.ofNat u :: ·) := by
  cases us with
  | nil => simp [ofUnits?, h]
  | cons v us => simp [ofUnits?, h, isHighHalf_eq_false h]

theorem ofUnits?_pair {n : Nat} (h : n < 0x100000) (us : List Nat) :
    ofUnits? ((0xD800 + n / 0x400) :: (0xDC00 + n % 0x400) :: us) =
      (ofUnits? us).map (Char.ofNat (0x10000 + n) :: ·) := by
  have hhigh : isHighHalf (0xD800 + n / 0x400) = true := decide_eq_true (by omega)
  have hlow : isLowHalf (0xDC00 + n % 0x400) = true := decide_eq_true (by omega)
  have hvalue : 0x10000 + (0xD800 + n / 0x400 - 0xD800) * 0x400 +
      (0xDC00 + n % 0x400 - 0xDC00) = 0x10000 + n := by
    omega
  rw [ofUnits?, hhigh, hlow, Bool.and_self, if_pos rfl, hvalue]

theorem ofUnits?_unitsOf_append (c : Char) (us : List Nat) :
    ofUnits? (unitsOf c ++ us) = (ofUnits? us).map (c :: ·) := by
  unfold unitsOf
  split
  · rw [List.singleton_append, ofUnits?_cons (isSurrogate_toNat c), Char.ofNat_toNat]
  · rename_i h
    have hlt : c.toNat - 0x10000 < 0x100000 := by
      have hvalid : c.toNat.isValidChar := c.valid
      unfold Nat.isValidChar at hvalid
      omega
    have hvalue : 0x10000 + (c.toNat - 0x10000) = c.toNat := by omega
    rw [List.cons_append, List.singleton_append, ofUnits?_pair hlt, hvalue, Char.ofNat_toNat]

theorem ofUnits?_units (cs : List Char) : ofUnits? (units cs) = some cs := by
  induction cs with
  | nil => rfl
  | cons c cs ih => rw [units_cons, ofUnits?_unitsOf_append, ih, Option.map_some]

theorem units_injective {cs ds : List Char} (h : units cs = units ds) : cs = ds := by
  have hread := ofUnits?_units cs
  rw [h, ofUnits?_units ds] at hread
  exact (Option.some.inj hread).symm

theorem compareLex_eq_lt {us vs : List Nat} : us.compareLex compare vs = .lt ↔ us < vs := by
  induction us generalizing vs with
  | nil => cases vs <;> simp [List.compareLex_nil_nil, List.compareLex_nil_cons]
  | cons u us ih =>
      cases vs with
      | nil => simp [List.compareLex_cons_nil]
      | cons v vs =>
          rw [List.compareLex_cons_cons, Ordering.then_eq_lt, Nat.compare_eq_lt, Nat.compare_eq_eq,
            List.cons_lt_cons_iff]
          exact or_congr_right (and_congr_right fun _ => ih)

variable {s t : List Char}

theorem unitOrder_eq_lt : unitOrder s t = .lt ↔ units s < units t :=
  compareLex_eq_lt

theorem unitOrder_eq_eq : unitOrder s t = .eq ↔ s = t := by
  rw [unitOrder, Std.compare_eq_iff_eq]
  exact ⟨units_injective, congrArg units⟩

theorem unitOrder_swap (s t : List Char) : unitOrder s t = (unitOrder t s).swap :=
  Std.OrientedOrd.eq_swap

end TemplateExpr.Text
