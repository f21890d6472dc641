import TemplateExpr.Options.DenyList
import TemplateExpr.Value.Basic

namespace TemplateExpr

structure Bindings where
  fields : Table Value := []
  actions : Table Value := []

namespace Bindings

def actionsKey : String := "actions"

def jsonTable (fields : List (String × Json)) : Table Value :=
  fields.map fun p => (p.1, .json p.2)

/-- The bindings that data gives: the fields of an object. An object among them under the key of the
actions is the table of actions instead of a field. -/
def ofJson : Json → Bindings
  | .object fields => match fields.lookup actionsKey with
      | some (.object actions) =>
          ⟨jsonTable (fields.filter (·.1 ≠ actionsKey)), jsonTable actions⟩
      | _ => ⟨jsonTable fields, []⟩
  | _ => {}

def withField (b : Bindings) (name : String) (value : Value) : Bindings :=
  { b with fields := b.fields.insert name value }

def withAction (b : Bindings) (name : String) (f : Handle) : Bindings :=
  { b with actions := b.actions.insert name (.function f) }

def field? (b : Bindings) (name : String) : Option Value :=
  b.fields.lookup name

def action? (b : Bindings) (name : String) : Option Value :=
  b.actions.lookup name

def isEmpty (b : Bindings) : Bool :=
  b.fields.isEmpty && b.actions.isEmpty

end Bindings

inductive Binding where
  | value (v : Value)
  | action (v : Value)
  | absent

structure Scope where
  bindings : Bindings
  receiver : Value
  deny : DenyList

namespace Scope

/-- A denied name is absent; an action goes before a field. -/
def resolve (s : Scope) (name : String) : Binding :=
  if s.deny.contains name then .absent
  else match s.bindings.action? name, s.bindings.field? name with
    | some a, _ => .action a
    | none, some v => .value v
    | none, none => .absent

def action? (s : Scope) (name : String) : Option Value :=
  if s.deny.contains name then none else s.bindings.action? name

end Scope

end TemplateExpr
