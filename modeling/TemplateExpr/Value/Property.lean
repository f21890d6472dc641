import TemplateExpr.Decimal.Numeral
import TemplateExpr.Text.Units
import TemplateExpr.Value.Basic

namespace TemplateExpr.Value

def hiddenKeys : List String :=
  ["__proto__", "constructor", "prototype"]

/-- The index that a key denotes: digits alone, and no zero before others. Indices have no upper
bound; one that is too large for a machine word is behind the end of every value. -/
def index? (key : String) : Option Nat :=
  let ds := key.toList
  if ds.isEmpty || !ds.all Char.isDigit then none
  else if 1 < ds.length && ds.head? == some '0' then none
  else some (Numeral.digitValue ds)

def elementOf (elements : List Value) (key : String) : Option Value :=
  if key = "length" then some (integer elements.length)
  else (index? key).bind fun i => elements[i]?

def property? (v : Value) (key : String) : Option Value :=
  if key ∈ hiddenKeys then none
  else match v with
    | .json (.object fields) => (fields.lookup key).map .json
    | .json (.array items) => elementOf (items.map .json) key
    | .json (.text s) =>
        elementOf ((Text.units s.toList).map fun u => text (String.singleton (Text.ofUnit u))) key
    | _ => none

def hasProperty (v : Value) (key : String) : Bool :=
  (v.property? key).isSome

def get (v : Value) (key : String) : Value :=
  (v.property? key).getD .undefined

end TemplateExpr.Value
