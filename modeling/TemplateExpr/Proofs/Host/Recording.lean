import TemplateExpr.Evaluator

namespace TemplateExpr

inductive Event where
  | scope (v : Value)
  | invocation (f : Handle) (receiver : Value)

variable {σ : Type}

def Host.recording (host : Host σ) : Host (σ × List Event) where
  isolatedScope := fun (s, log) =>
    let (v, t) := host.isolatedScope s
    (v, t, log ++ [.scope v])
  invoke := fun f receiver (s, log) =>
    let (r, t) := host.invoke f receiver s
    (r, t, log ++ [.invocation f receiver])

def Evaluator.events (e : Evaluator) (host : Host σ) (source : String) (data : Bindings)
    (receiver : Value) (s : σ) : List Event :=
  (e.evaluate host.recording source data receiver (s, [])).2.2

end TemplateExpr
