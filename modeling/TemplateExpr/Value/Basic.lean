import TemplateExpr.Json.Basic

namespace TemplateExpr

abbrev Handle := Nat

inductive Value where
  | undefined
  | json (j : Json)
  | function (f : Handle)

def Double.Finite.toInt? (x : Finite) : Option Int :=
  if one ∣ x.units then some (x.signedUnits / one) else none

/-- The number that a double is stored as: integers of less than 2^53 are integers, so a zero has no
sign, and what is not finite is no number. -/
def Number.ofDouble? : Double → Option Number
  | .finite x => match x.toInt?.filter fun n => n.natAbs < Nat.pow 2 53 with
      | some n => some (.integer n)
      | none => some (.double x)
  | _ => none

namespace Value

def null : Value := .json .null

def boolean (b : Bool) : Value := .json (.boolean b)

def integer (n : Int) : Value := .json (.number (.integer n))

def text (s : String) : Value := .json (.text s)

def ofDouble (x : Double) : Value :=
  match Number.ofDouble? x with
  | some n => .json (.number n)
  | none => null

def isUndefined : Value → Bool
  | .undefined => true
  | _ => false

def isText : Value → Bool
  | .json (.text _) => true
  | _ => false

def isObject : Value → Bool
  | .json (.object _) => true
  | _ => false

def isFunction : Value → Bool
  | .function _ => true
  | _ => false

def isEmptyArray : Value → Bool
  | .json (.array []) => true
  | _ => false

def json? : Value → Option Json
  | .json j => some j
  | _ => none

def toJson (v : Value) : Json :=
  v.json?.getD .null

def same : Value → Value → Bool
  | .undefined, .undefined => true
  | .json a, .json b => a.same b
  | .function f, .function g => f == g
  | _, _ => false

end Value

end TemplateExpr
