import TemplateExpr.Decimal.Numeral
import TemplateExpr.Text.Blank
import TemplateExpr.Value.Text

namespace TemplateExpr

namespace Text

/-- The infinities by name: with a sign in any letter case and also shortened, without a sign in
one spelling only. -/
def infinity? (cs : List Char) : Option Double :=
  let (negative, word) := Numeral.sign cs
  let named := word.map Char.toLower = "inf".toList ∨ word.map Char.toLower = "infinity".toList
  if named ∧ word.length < cs.length ∨ cs = "Infinity".toList then some (.infinite negative)
  else none

/-- The number that a text denotes, blanks around it aside; a blank text denotes zero. -/
def toDouble (s : String) : Double :=
  let cs := trim s.toList
  if cs.isEmpty then .zero false
  else match infinity? cs, Numeral.ofText? cs with
    | some x, _ => x
    | none, some n => n.toDouble
    | none, none => .nan

end Text

namespace Value

def toDouble : Value → Double
  | .undefined => .nan
  | .function _ => .nan
  | .json .null => .zero false
  | .json (.boolean b) => .ofInt b.toInt
  | .json (.number n) => n.toDouble
  | .json (.text s) => Text.toDouble s
  | .json (.array items) => Text.toDouble (Json.array items).toText
  | .json (.object _) => .nan

def isTruthy : Value → Bool
  | .undefined => false
  | .function _ => true
  | .json .null => false
  | .json (.boolean b) => b
  | .json (.number n) => !(n.toDouble.isZero || n.toDouble.isNaN)
  | .json (.text s) => !s.isEmpty
  | .json (.array _) => true
  | .json (.object _) => true

end Value

end TemplateExpr
