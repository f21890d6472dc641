import TemplateExpr.Double.Basic

namespace TemplateExpr.Double

def neg : Double → Double
  | .nan => .nan
  | .infinite s => .infinite !s
  | .finite x => .finite { x with negative := !x.negative }

/-- A sum of zero is negative only where both terms are. -/
def Finite.add (x y : Finite) : Double :=
  let sum := x.signedUnits + y.signedUnits
  if sum = 0 then zero (x.negative && y.negative) else ofUnits sum

def add : Double → Double → Double
  | .nan, _ => .nan
  | _, .nan => .nan
  | .infinite s, .infinite t => if s = t then .infinite s else .nan
  | .infinite s, .finite _ => .infinite s
  | .finite _, .infinite t => .infinite t
  | .finite x, .finite y => x.add y

def sub (a b : Double) : Double :=
  a.add b.neg

def mul : Double → Double → Double
  | .nan, _ => .nan
  | _, .nan => .nan
  | .infinite s, .infinite t => .infinite (s ^^ t)
  | .infinite s, .finite y => if y.units = 0 then .nan else .infinite (s ^^ y.negative)
  | .finite x, .infinite t => if x.units = 0 then .nan else .infinite (x.negative ^^ t)
  | .finite x, .finite y => ofRatio (x.negative ^^ y.negative) (x.units * y.units) one

def div : Double → Double → Double
  | .nan, _ => .nan
  | _, .nan => .nan
  | .infinite _, .infinite _ => .nan
  | .infinite s, .finite y => .infinite (s ^^ y.negative)
  | .finite x, .infinite t => zero (x.negative ^^ t)
  | .finite x, .finite y =>
      if y.units = 0 then
        if x.units = 0 then .nan else .infinite (x.negative ^^ y.negative)
      else ofRatio (x.negative ^^ y.negative) (x.units * one) y.units

def compare? : Double → Double → Option Ordering
  | .nan, _ => none
  | _, .nan => none
  | .infinite s, .infinite t => some (compare (!s) (!t))
  | .infinite s, .finite _ => some (if s then .lt else .gt)
  | .finite _, .infinite t => some (if t then .gt else .lt)
  | .finite x, .finite y => some (compare x.signedUnits y.signedUnits)

def same (a b : Double) : Bool :=
  a.compare? b == some .eq

def isZero : Double → Bool
  | .finite x => x.units == 0
  | _ => false

def isNaN : Double → Bool
  | .nan => true
  | _ => false

end TemplateExpr.Double
