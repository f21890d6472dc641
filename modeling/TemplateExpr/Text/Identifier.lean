namespace TemplateExpr.Text

def isIdentifierStart (c : Char) : Bool :=
  c.isAlpha || c == '_' || c == '$'

def isIdentifierPart (c : Char) : Bool :=
  isIdentifierStart c || c.isDigit

def isIdentifier : List Char → Bool
  | [] => false
  | c :: cs => isIdentifierStart c && cs.all isIdentifierPart

def isWord (cs : List Char) : Bool :=
  !cs.isEmpty && cs.all Char.isAlpha

end TemplateExpr.Text
