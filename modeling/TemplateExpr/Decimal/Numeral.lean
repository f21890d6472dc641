import TemplateExpr.Decimal.Basic

namespace TemplateExpr

structure Numeral where
  negative : Bool
  magnitude : Decimal
  deriving DecidableEq

namespace Numeral

def toDouble (n : Numeral) : Double :=
  n.magnitude.toDouble n.negative

def digitValue (cs : List Char) : Nat :=
  Nat.ofDigitChars 10 cs 0

def sign : List Char → Bool × List Char
  | '+' :: cs => (false, cs)
  | '-' :: cs => (true, cs)
  | cs => (false, cs)

def mantissa (cs : List Char) : List Char × List Char × List Char :=
  match cs.dropWhile Char.isDigit with
  | '.' :: rest =>
      (cs.takeWhile Char.isDigit, rest.takeWhile Char.isDigit, rest.dropWhile Char.isDigit)
  | rest => (cs.takeWhile Char.isDigit, [], rest)

def exponent? : List Char → Option Int
  | [] => some 0
  | e :: cs =>
      let (negative, ds) := sign cs
      if (e == 'e' || e == 'E') && !ds.isEmpty && ds.all Char.isDigit then
        some (if negative then -digitValue ds else digitValue ds)
      else none

def ofText? (cs : List Char) : Option Numeral :=
  let (negative, cs) := sign cs
  let (whole, fraction, rest) := mantissa cs
  if whole.isEmpty && fraction.isEmpty then none
  else (exponent? rest).map fun e =>
    ⟨negative, ⟨digitValue (whole ++ fraction), e - fraction.length⟩⟩

end Numeral

end TemplateExpr
