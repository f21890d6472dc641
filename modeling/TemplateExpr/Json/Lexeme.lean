import TemplateExpr.Json.Document
import TemplateExpr.Text.Blank
import TemplateExpr.Text.Hex
import TemplateExpr.Text.Units

namespace TemplateExpr.Document

inductive Lexeme where
  | scalar (d : Document)
  | mark (c : Char)

def escaped? : Char → Option Char
  | '"' => some '"'
  | '\\' => some '\\'
  | '/' => some '/'
  | 'b' => some '\x08'
  | 'f' => some '\x0c'
  | 'n' => some '\n'
  | 'r' => some '\r'
  | 't' => some '\t'
  | _ => none

def readText : List Char → Option (List Nat × List Char)
  | [] => none
  | '"' :: cs => some ([], cs)
  | '\\' :: 'u' :: a :: b :: c :: d :: cs => do
      let u ← Text.unitOfHex? a b c d
      let (us, rest) ← readText cs
      some (u :: us, rest)
  | '\\' :: e :: cs => do
      let c ← escaped? e
      let (us, rest) ← readText cs
      some (Text.unitsOf c ++ us, rest)
  | c :: cs => do
      if c.toNat < 0x20 ∨ c = '\\' then none
      let (us, rest) ← readText cs
      some (Text.unitsOf c ++ us, rest)

def readDigits (cs : List Char) : Option (List Char × List Char) :=
  let ds := cs.takeWhile Char.isDigit
  if ds.isEmpty then none else some (ds, cs.dropWhile Char.isDigit)

def readWhole : List Char → Option (List Char × List Char)
  | '0' :: cs => some (['0'], cs)
  | cs => readDigits cs

def readFraction : List Char → Option (List Char × List Char)
  | '.' :: cs => readDigits cs
  | cs => some ([], cs)

def readExponent : List Char → Option (Option Int × List Char)
  | [] => some (none, [])
  | e :: cs =>
      if e = 'e' ∨ e = 'E' then do
        let (negative, cs) := Numeral.sign cs
        let (ds, rest) ← readDigits cs
        let n : Int := Numeral.digitValue ds
        some (some (if negative then -n else n), rest)
      else some (none, e :: cs)

def readNumber (cs : List Char) : Option (NumberLiteral × List Char) := do
  let (negative, cs) := match cs with
    | '-' :: cs => (true, cs)
    | cs => (false, cs)
  let (whole, cs) ← readWhole cs
  let (fraction, cs) ← readFraction cs
  let (exponent, cs) ← readExponent cs
  let magnitude : Decimal :=
    ⟨Numeral.digitValue (whole ++ fraction), exponent.getD 0 - fraction.length⟩
  some (⟨⟨negative, magnitude⟩, fraction.isEmpty && exponent.isNone⟩, cs)

def readLexeme : List Char → Option (Lexeme × List Char)
  | 'n' :: 'u' :: 'l' :: 'l' :: cs => some (.scalar .null, cs)
  | 't' :: 'r' :: 'u' :: 'e' :: cs => some (.scalar (.boolean true), cs)
  | 'f' :: 'a' :: 'l' :: 's' :: 'e' :: cs => some (.scalar (.boolean false), cs)
  | '"' :: cs => do
      let (us, rest) ← readText cs
      some (.scalar (.text ((Text.ofUnits? us).map String.ofList)), rest)
  | c :: cs =>
      if c ∈ ['[', ']', '\x7b', '\x7d', ',', ':'] then some (.mark c, cs)
      else (readNumber (c :: cs)).map fun (n, rest) => (.scalar (.number n), rest)
  | [] => none

/-- The lexemes of a text, of which there are at most as many as it has characters. -/
def lexemes : Nat → List Char → Option (List Lexeme)
  | fuel, cs => match fuel, cs.dropWhile Text.isSpace with
      | _, [] => some []
      | 0, _ => none
      | fuel + 1, cs => do
          let (l, rest) ← readLexeme cs
          let ls ← lexemes fuel rest
          some (l :: ls)

end TemplateExpr.Document
