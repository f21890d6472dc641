import TemplateExpr.Decimal.Shortest
import TemplateExpr.Value.Basic

namespace TemplateExpr

/-- Numbers are written positionally from a millionth up to 21 digits, and with an exponent
outside. -/
def Decimal.text (d : Decimal) : List Char :=
  if -6 < d.point ∧ d.point ≤ 21 then d.positional else d.scientific

def Double.Finite.text (x : Finite) : List Char :=
  if x.units = 0 then ['0'] else Decimal.withSign x.negative (Decimal.shortest x).text

def Number.text : Number → List Char
  | .integer n => Decimal.withSign (decide (n < 0)) (Nat.toDigits 10 n.natAbs)
  | .double x => x.text

mutual

def Json.toText : Json → String
  | .null => "null"
  | .boolean b => if b then "true" else "false"
  | .number n => String.ofList n.text
  | .text s => s
  | .array items => ",".intercalate (Json.itemTexts items)
  | .object _ => "[object Object]"

def Json.itemTexts : List Json → List String
  | [] => []
  | .null :: items => "" :: Json.itemTexts items
  | j :: items => j.toText :: Json.itemTexts items

end

def Value.toText : Value → String
  | .undefined => "undefined"
  | .json j => j.toText
  | .function _ => "function"

def Value.toKey (v : Value) : String :=
  v.toText

end TemplateExpr
