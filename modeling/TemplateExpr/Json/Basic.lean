import TemplateExpr.Double.Arithmetic
import TemplateExpr.Table

namespace TemplateExpr

inductive Number where
  | integer (n : Int)
  | double (x : Double.Finite)
  deriving DecidableEq

namespace Number

def toDouble : Number → Double
  | .integer n => .ofInt n
  | .double x => .finite x

/-- Equality within a kind: an integer is never the same as a double. -/
def same : Number → Number → Bool
  | .integer m, .integer n => m == n
  | .double x, .double y => Double.same (.finite x) (.finite y)
  | _, _ => false

end Number

inductive Json where
  | null
  | boolean (b : Bool)
  | number (n : Number)
  | text (s : String)
  | array (items : List Json)
  | object (fields : List (String × Json))

namespace Json

mutual

def same : Json → Json → Bool
  | .null, .null => true
  | .boolean a, .boolean b => a == b
  | .number m, .number n => m.same n
  | .text s, .text t => s == t
  | .array xs, .array ys => sameItems xs ys
  | .object xs, .object ys => sameFields xs ys
  | _, _ => false

def sameItems : List Json → List Json → Bool
  | [], [] => true
  | x :: xs, y :: ys => same x y && sameItems xs ys
  | _, _ => false

def sameFields : List (String × Json) → List (String × Json) → Bool
  | [], [] => true
  | (k, x) :: xs, (l, y) :: ys => k == l && same x y && sameFields xs ys
  | _, _ => false

end

mutual

/-- Equality of data in which a number equals every number of the same value, whatever its kind,
and objects are equal where each field has an equal one in the other. -/
def strictEq : Json → Json → Bool
  | .number m, .number n => m.toDouble.same n.toDouble
  | .array xs, .array ys => strictEqItems xs ys
  | .object xs, .object ys => xs.length == ys.length && strictEqFields xs ys
  | .null, .null => true
  | .boolean a, .boolean b => a == b
  | .text s, .text t => s == t
  | _, _ => false

def strictEqItems : List Json → List Json → Bool
  | [], [] => true
  | x :: xs, y :: ys => strictEq x y && strictEqItems xs ys
  | _, _ => false

def strictEqFields : List (String × Json) → List (String × Json) → Bool
  | [], _ => true
  | (k, x) :: xs, ys =>
      (match ys.lookup k with
        | some y => strictEq x y
        | none => false) && strictEqFields xs ys

end

end Json

end TemplateExpr
