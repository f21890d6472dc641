import TemplateExpr.Text.Identifier

namespace TemplateExpr

structure Options where
  opening : String := "\x7b\x7b"
  closing : String := "\x7d\x7d"
  denied : List String := []
  maxDepth : Nat := 64
  deriving DecidableEq

namespace Options

def depthCeiling : Nat := 256

inductive Fault where
  | unreadable
  | emptyDelimiter
  | equalDelimiters
  | zeroDepth
  | excessiveDepth
  | notIdentifier (name : String)
  deriving DecidableEq

def Fault.message : Fault → String
  | .unreadable => "options are not a readable document"
  | .emptyDelimiter => "placeholder delimiters must not be empty"
  | .equalDelimiters => "opening and closing delimiters must differ"
  | .zeroDepth => "max_depth must be at least 1"
  | .excessiveDepth => "max_depth must not exceed " ++ depthCeiling.repr
  | .notIdentifier name => "deny-list entry `" ++ name ++ "` is not an identifier"

def fault? (o : Options) : Option Fault :=
  if o.opening = "" ∨ o.closing = "" then some .emptyDelimiter
  else if o.opening = o.closing then some .equalDelimiters
  else if o.maxDepth = 0 then some .zeroDepth
  else if depthCeiling < o.maxDepth then some .excessiveDepth
  else (o.denied.find? fun name => !Text.isIdentifier name.toList).map .notIdentifier

def validate (o : Options) : Except Fault Unit :=
  match o.fault? with
  | some f => .error f
  | none => .ok ()

end Options

end TemplateExpr
