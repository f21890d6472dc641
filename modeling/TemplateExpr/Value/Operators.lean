import TemplateExpr.Text.Units
import TemplateExpr.Value.Number

namespace TemplateExpr.Value

def strictEq : Value → Value → Bool
  | .undefined, .undefined => true
  | .function f, .function g => f == g
  | .json a, .json b => a.strictEq b
  | _, _ => false

def compare? : Value → Value → Option Ordering
  | .json (.text s), .json (.text t) => some (Text.unitOrder s.toList t.toList)
  | a, b => a.toDouble.compare? b.toDouble

def lt (a b : Value) : Bool := (a.compare? b).any Ordering.isLT

def le (a b : Value) : Bool := (a.compare? b).any Ordering.isLE

def gt (a b : Value) : Bool := (a.compare? b).any Ordering.isGT

def ge (a b : Value) : Bool := (a.compare? b).any Ordering.isGE

def add (a b : Value) : Value :=
  if a.isText || b.isText then text (a.toText ++ b.toText)
  else ofDouble (a.toDouble.add b.toDouble)

def sub (a b : Value) : Value := ofDouble (a.toDouble.sub b.toDouble)

def mul (a b : Value) : Value := ofDouble (a.toDouble.mul b.toDouble)

def div (a b : Value) : Value := ofDouble (a.toDouble.div b.toDouble)

def neg (a : Value) : Value := ofDouble a.toDouble.neg

end TemplateExpr.Value
