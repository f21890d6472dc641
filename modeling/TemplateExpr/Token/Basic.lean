import TemplateExpr.Decimal.Shortest

namespace TemplateExpr

inductive Keyword where
  | trueWord
  | falseWord
  | nullWord
  | undefinedWord
  deriving DecidableEq

def Keyword.spelling : Keyword → String
  | .trueWord => "true"
  | .falseWord => "false"
  | .nullWord => "null"
  | .undefinedWord => "undefined"

def Keyword.all : List Keyword :=
  [.trueWord, .falseWord, .nullWord, .undefinedWord]

inductive Symbol where
  | plus
  | minus
  | star
  | slash
  | bang
  | strictEqual
  | strictUnequal
  | less
  | lessEqual
  | greater
  | greaterEqual
  | question
  | colon
  | dot
  | comma
  | openBracket
  | closeBracket
  | openParen
  | closeParen
  deriving DecidableEq

def Symbol.spelling : Symbol → String
  | .plus => "+"
  | .minus => "-"
  | .star => "*"
  | .slash => "/"
  | .bang => "!"
  | .strictEqual => "==="
  | .strictUnequal => "!=="
  | .less => "<"
  | .lessEqual => "<="
  | .greater => ">"
  | .greaterEqual => ">="
  | .question => "?"
  | .colon => ":"
  | .dot => "."
  | .comma => ","
  | .openBracket => "["
  | .closeBracket => "]"
  | .openParen => "("
  | .closeParen => ")"

inductive Token where
  | number (x : Double)
  | text (s : String)
  | name (s : String)
  | word (w : Keyword)
  | symbol (s : Symbol)
  | stop
  deriving DecidableEq

/-- A double with all its digits and never an exponent. -/
def Double.positional : Double → String
  | .nan => "NaN"
  | .infinite s => String.ofList (Decimal.withSign s "inf".toList)
  | .finite x => String.ofList (Decimal.withSign x.negative (Decimal.shortest x).positional)

def Token.describe : Token → String
  | .number x => "number " ++ x.positional
  | .text _ => "string literal"
  | .name s => "identifier `" ++ s ++ "`"
  | .word w => "`" ++ w.spelling ++ "`"
  | .symbol s => "`" ++ s.spelling ++ "`"
  | .stop => "end of expression"

/-- A token and the size of the text before it. -/
structure Located where
  token : Token
  offset : Nat
  deriving DecidableEq

end TemplateExpr
