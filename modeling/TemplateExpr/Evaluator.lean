import TemplateExpr.Expr.Evaluate
import TemplateExpr.Expr.Rule

namespace TemplateExpr

structure Evaluator where
  deny : DenyList := {}
  maxDepth : Nat := ({} : Options).maxDepth
  deriving DecidableEq

namespace Evaluator

def ofOptions (o : Options) : Except Options.Fault Evaluator :=
  o.validate.map fun _ => ⟨o.denyList, o.maxDepth⟩

theorem ofOptions_default : ofOptions {} = .ok {} := rfl

variable {σ : Type}

def parse (e : Evaluator) (source : String) : Run σ Expr :=
  match Expr.parse e.maxDepth source with
  | .ok x => pure x
  | .error m => throw (.malformed m)

def evaluate (e : Evaluator) (host : Host σ) (source : String) (data : Bindings)
    (receiver : Value) : Run σ Value := do
  host.ensureIsolated
  let x ← e.parse source
  x.evaluate host ⟨data, receiver, e.deny⟩

end Evaluator

end TemplateExpr
