import TemplateExpr.Options.Basic
import TemplateExpr.Token.Mistake

namespace TemplateExpr

inductive IsolationFault where
  | unavailable
  | exposed
  deriving DecidableEq

def IsolationFault.message : IsolationFault → String
  | .unavailable => "no isolated evaluation scope is available"
  | .exposed => "evaluation scope is not isolated"

inductive RuntimeFault where
  | propertyOfUndefined (key : String)
  | propertyOfNull (key : String)
  | notFunction (name : String)
  | actionFailed (name reason : String)
  deriving DecidableEq

def RuntimeFault.message : RuntimeFault → String
  | .propertyOfUndefined key => "Cannot read properties of undefined (reading '" ++ key ++ "')"
  | .propertyOfNull key => "Cannot read properties of null (reading '" ++ key ++ "')"
  | .notFunction name => name ++ " is not a function"
  | .actionFailed name reason => "action `" ++ name ++ "` failed: " ++ reason

inductive Fault where
  | malformed (m : Mistake)
  | isolation (f : IsolationFault)
  | runtime (f : RuntimeFault)
  | options (f : Options.Fault)
  deriving DecidableEq

def Fault.message : Fault → String
  | .malformed m => "SyntaxError: " ++ m.cause.message ++ " (at offset " ++ m.offset.repr ++ ")"
  | .isolation f => "SandboxViolation: " ++ f.message
  | .runtime f => "TypeError: " ++ f.message
  | .options f => "invalid engine options: " ++ f.message

end TemplateExpr
