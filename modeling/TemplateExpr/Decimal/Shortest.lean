import TemplateExpr.Decimal.Basic

/-!
The shortest decimal that reads back as a given double: the coarsest grid of multiples of a power
of ten that holds one, and there the one nearest to the double.
-/
namespace TemplateExpr.Decimal

/-- The exponent of the finest grid; its points are less than half a unit apart. -/
def finest : Int := -324

/-- The two neighbours of `u` units among the multiples of `10 ^ exponent`, the nearer one first;
of two that are as near, the upper one. -/
def neighbours (u : Nat) (exponent : Int) : List Decimal :=
  let n := u * Nat.pow 10 (-exponent).toNat
  let d := Double.one * Nat.pow 10 exponent.toNat
  let lower := Decimal.mk (n / d) exponent
  let upper := Decimal.mk (n / d + 1) exponent
  if 2 * (n % d) < d then [lower, upper] else [upper, lower]

def readsBack (x : Double.Finite) (d : Decimal) : Bool :=
  d.toDouble false == .finite x.abs

def shortestFrom (x : Double.Finite) : Nat → Decimal
  | 0 => (neighbours x.units finest).headD ⟨0, 0⟩
  | steps + 1 =>
      match (neighbours x.units (finest + (steps + 1))).find? (readsBack x) with
      | some d => d
      | none => shortestFrom x steps

/-- A grid whose points are all more than twice the value away from zero. -/
def start (x : Double.Finite) : Nat :=
  3 * (x.units.log2 + 1) / 10 + 5

def shortest (x : Double.Finite) : Decimal :=
  if x.units = 0 then ⟨0, 0⟩ else shortestFrom x (start x)

end TemplateExpr.Decimal
