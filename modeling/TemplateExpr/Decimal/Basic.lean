import TemplateExpr.Double.Basic

namespace TemplateExpr

/-- The number `coefficient * 10 ^ exponent`. -/
structure Decimal where
  coefficient : Nat
  exponent : Int
  deriving DecidableEq

namespace Decimal

def numerator (d : Decimal) : Nat :=
  d.coefficient * Nat.pow 10 d.exponent.toNat * Double.one

def denominator (d : Decimal) : Nat :=
  Nat.pow 10 (-d.exponent).toNat

/-- Every decimal that is not zero is at least `10 ^ 309`, which is beyond the finite doubles. -/
def isHuge (d : Decimal) : Bool :=
  decide (309 ≤ d.exponent)

/-- The decimal is below `10 ^ (-324)`, which is less than half a unit. -/
def isTiny (d : Decimal) : Bool :=
  decide (d.coefficient.log2 + 1 + d.exponent ≤ -324)

def toDouble (negative : Bool) (d : Decimal) : Double :=
  if d.coefficient = 0 ∨ d.isTiny then .zero negative
  else if d.isHuge then .infinite negative
  else .ofRatio negative d.numerator d.denominator

def digits (d : Decimal) : List Char :=
  Nat.toDigits 10 d.coefficient

/-- Where the decimal point stands, counted from the first digit. -/
def point (d : Decimal) : Int :=
  d.digits.length + d.exponent

def positional (d : Decimal) : List Char :=
  let ds := d.digits
  if d.point ≤ 0 then '0' :: '.' :: List.replicate (-d.point).toNat '0' ++ ds
  else if d.point < ds.length then ds.take d.point.toNat ++ '.' :: ds.drop d.point.toNat
  else ds ++ List.replicate d.exponent.toNat '0'

def scientific (d : Decimal) : List Char :=
  let e := d.point - 1
  let fraction := if d.digits.tail.isEmpty then [] else '.' :: d.digits.tail
  d.digits.take 1 ++ fraction ++ 'e' :: (if 0 ≤ e then '+' else '-') :: Nat.toDigits 10 e.natAbs

def withSign (negative : Bool) (cs : List Char) : List Char :=
  if negative then '-' :: cs else cs

end Decimal

end TemplateExpr
