import TemplateExpr.Fault
import TemplateExpr.Value.Basic

namespace TemplateExpr

structure Host (σ : Type) where
  /-- The scope for the next evaluation; undefined where none can be provided. -/
  isolatedScope : StateM σ Value
  invoke : Handle → Value → StateM σ (Except String Value)

abbrev Run (σ : Type) := ExceptT Fault (StateM σ)

namespace Run

variable {σ α β : Type}

@[simp] theorem pure_apply (a : α) (s : σ) : (pure a : Run σ α) s = (.ok a, s) := rfl

@[simp] theorem throw_apply (f : Fault) (s : σ) : (throw f : Run σ α) s = (.error f, s) := rfl

theorem bind_apply (x : Run σ α) (f : α → Run σ β) (s : σ) :
    (x >>= f) s = match x s with
      | (.ok a, t) => f a t
      | (.error e, t) => (.error e, t) := by
  change ExceptT.bindCont f (x s).1 (x s).2 = _
  rcases x s with ⟨_ | _, t⟩ <;> rfl

end Run

def notCallable : String := "value is not callable"

def Host.isolated : Host Unit where
  isolatedScope := pure (.json (.object []))
  invoke := fun _ _ => pure (.error notCallable)

def Value.isolation : Value → Except IsolationFault Unit
  | .json (.object []) => .ok ()
  | .undefined => .error .unavailable
  | _ => .error .exposed

def Value.call {σ : Type} (host : Host σ) (v receiver : Value) : StateM σ (Except String Value) :=
  match v with
  | .function f => host.invoke f receiver
  | _ => pure (.error notCallable)

def Host.ensureIsolated {σ : Type} (host : Host σ) : Run σ Unit := do
  let scope ← host.isolatedScope
  match scope.isolation with
  | .ok _ => pure ()
  | .error f => throw (.isolation f)

end TemplateExpr
