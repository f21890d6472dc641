namespace TemplateExpr.Text

def unitsOf (c : Char) : List Nat :=
  if c.toNat < 0x10000 then [c.toNat]
  else [0xD800 + (c.toNat - 0x10000) / 0x400, 0xDC00 + (c.toNat - 0x10000) % 0x400]

def units (cs : List Char) : List Nat :=
  cs.flatMap unitsOf

@[simp] theorem units_nil : units [] = [] := rfl

@[simp] theorem units_cons (c : Char) (cs : List Char) : units (c :: cs) = unitsOf c ++ units cs := by
  simp [units]

@[simp] theorem units_append (a b : List Char) : units (a ++ b) = units a ++ units b := by
  simp [units]

def isSurrogate (u : Nat) : Bool :=
  decide (0xD800 ≤ u ∧ u ≤ 0xDFFF)

/-- The character that a unit reads as on its own: half of a pair is the replacement character. -/
def ofUnit (u : Nat) : Char :=
  if isSurrogate u then '\uFFFD' else Char.ofNat u

def isHighHalf (u : Nat) : Bool :=
  decide (0xD800 ≤ u ∧ u ≤ 0xDBFF)

def isLowHalf (u : Nat) : Bool :=
  decide (0xDC00 ≤ u ∧ u ≤ 0xDFFF)

def ofUnits? : List Nat → Option (List Char)
  | [] => some []
  | u :: v :: us =>
      if isHighHalf u && isLowHalf v then
        (ofUnits? us).map (Char.ofNat (0x10000 + (u - 0xD800) * 0x400 + (v - 0xDC00)) :: ·)
      else if isSurrogate u then none
      else (ofUnits? (v :: us)).map (Char.ofNat u :: ·)
  | [u] => if isSurrogate u then none else some [Char.ofNat u]

def unitOrder (a b : List Char) : Ordering :=
  compare (units a) (units b)

end TemplateExpr.Text
