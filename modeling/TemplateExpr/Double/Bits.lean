import TemplateExpr.Double.Basic

namespace TemplateExpr.Double

def ofScaled (negative : Bool) (m e : Nat) : Double :=
  ofRatio negative (m * Nat.pow 2 e) 1

def ofBits (bits : Nat) : Double :=
  let negative := bits / Nat.pow 2 63 % 2 == 1
  let exponent := bits / Nat.pow 2 52 % Nat.pow 2 11
  let fraction := bits % Nat.pow 2 52
  if exponent = 2047 then
    if fraction = 0 then .infinite negative else .nan
  else if exponent = 0 then ofScaled negative fraction 0
  else ofScaled negative (Nat.pow 2 52 + fraction) (exponent - 1)

def unitBits (u : Nat) : Nat :=
  (u.log2 - 52) * Nat.pow 2 52 + u / spacing u

def toBits : Double → Nat
  | .nan => 2047 * Nat.pow 2 52 + Nat.pow 2 51
  | .infinite s => s.toNat * Nat.pow 2 63 + 2047 * Nat.pow 2 52
  | .finite x => x.negative.toNat * Nat.pow 2 63 + unitBits x.units

end TemplateExpr.Double
