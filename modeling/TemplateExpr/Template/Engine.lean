import TemplateExpr.Evaluator
import TemplateExpr.Template.Placeholder

namespace TemplateExpr

inductive Template where
  | single (s : String)
  | list (ss : List String)

inductive Output where
  | single (v : Value)
  | list (vs : List Value)

def Output.toJson : Output → Json
  | .single v => v.toJson
  | .list vs => .array (vs.map Value.toJson)

def Options.delimiters (o : Options) : Delimiters :=
  ⟨o.opening.toList, o.closing.toList⟩

structure Engine where
  evaluator : Evaluator := {}
  delimiters : Delimiters := ({} : Options).delimiters

namespace Engine

/-- Delimiters taken literally always make a pattern to search for, so a fault is one of the
options. -/
def ofOptions (o : Options) : Except Options.Fault Engine :=
  (Evaluator.ofOptions o).map fun e => ⟨e, o.delimiters⟩

theorem ofOptions_default : ofOptions {} = .ok {} := rfl

variable {σ : Type}

def interpolate (evaluate : String → Run σ Value) (last : List Char) :
    List (List Char × List Char) → Run σ String
  | [] => pure (String.ofList last)
  | (before, inner) :: parts => do
      let v ← evaluate (String.ofList inner)
      let rest ← interpolate evaluate last parts
      pure (String.ofList before ++ v.toText ++ rest)

def render (d : Delimiters) (evaluate : String → Run σ Value) (s : String) : Run σ Value :=
  match d.placeholder? (Text.trim s.toList) with
  | none => pure (.text s)
  | some ⟨[], inner, []⟩ => evaluate (String.ofList inner)
  | some _ => do
      let segments := d.segments s.toList
      let text ← interpolate evaluate segments.last segments.parts
      pure (.text text)

def renderAll (d : Delimiters) (evaluate : String → Run σ Value) : List String → Run σ (List Value)
  | [] => pure []
  | s :: ss => do
      let v ← render d evaluate s
      let vs ← renderAll d evaluate ss
      pure (v :: vs)

def execute (e : Engine) (host : Host σ) (t : Template) (data : Bindings) (receiver : Value) :
    Run σ Output :=
  let evaluate := fun source => e.evaluator.evaluate host source data receiver
  match t with
  | .single s => do
      let v ← render e.delimiters evaluate s
      pure (.single v)
  | .list ss => do
      let vs ← renderAll e.delimiters evaluate ss
      pure (.list vs)

end Engine

end TemplateExpr
