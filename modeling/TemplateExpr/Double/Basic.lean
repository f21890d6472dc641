import TemplateExpr.Double.Round

/-!
Double-precision numbers. A finite double is a sign and a number of units, a unit being 2^-1074,
so that every finite double, and every sum of two, is a whole number of units.
-/
namespace TemplateExpr

namespace Double

def one : Nat := Nat.pow 2 1074

theorem one_pos : 0 < one := by
  unfold one; apply Nat.two_pow_pos

def bound : Nat := Nat.pow 2 2098

theorem bound_pos : 0 < bound := by
  unfold bound; apply Nat.two_pow_pos

structure Finite where
  negative : Bool
  units : Nat
  spacing_dvd : spacing units ∣ units
  lt_bound : units < bound
  deriving DecidableEq

theorem Finite.ext {x y : Finite} (hs : x.negative = y.negative) (hu : x.units = y.units) :
    x = y := by
  cases x; cases y; simp_all

def Finite.signedUnits (x : Finite) : Int :=
  if x.negative then -x.units else x.units

def Finite.abs (x : Finite) : Finite :=
  { x with negative := false }

end Double

inductive Double where
  | nan
  | infinite (negative : Bool)
  | finite (x : Double.Finite)
  deriving DecidableEq

namespace Double

def zero (negative : Bool) : Double :=
  .finite ⟨negative, 0, by simp, bound_pos⟩

def ofRatio (negative : Bool) (n d : Nat) : Double :=
  if h : roundUnits n d < bound then
    .finite ⟨negative, roundUnits n d, spacing_dvd_roundUnits n d, h⟩
  else .infinite negative

theorem ofRatio_units (x : Finite) {d : Nat} (hd : 0 < d) :
    ofRatio x.negative (x.units * d) d = .finite x := by
  have h : roundUnits (x.units * d) d = x.units := roundUnits_mul_self hd x.spacing_dvd
  simp [ofRatio, h, x.lt_bound]

def ofUnits (u : Int) : Double :=
  ofRatio (decide (u < 0)) u.natAbs 1

def ofInt (n : Int) : Double :=
  ofUnits (n * one)

def isFinite : Double → Bool
  | .finite _ => true
  | _ => false

end Double

end TemplateExpr
