import TemplateExpr.Bindings
import TemplateExpr.Expr.Basic
import TemplateExpr.Host
import TemplateExpr.Value.Operators
import TemplateExpr.Value.Property

namespace TemplateExpr

def UnaryOp.apply : UnaryOp → Value → Value
  | .neg, v => v.neg
  | .not, v => .boolean !v.isTruthy

def BinaryOp.apply : BinaryOp → Value → Value → Value
  | .strictEq, a, b => .boolean (a.strictEq b)
  | .strictNe, a, b => .boolean !a.strictEq b
  | .lt, a, b => .boolean (a.lt b)
  | .le, a, b => .boolean (a.le b)
  | .gt, a, b => .boolean (a.gt b)
  | .ge, a, b => .boolean (a.ge b)
  | .add, a, b => a.add b
  | .sub, a, b => a.sub b
  | .mul, a, b => a.mul b
  | .div, a, b => a.div b

def Value.read (target : Value) (key : String) : Except RuntimeFault Value :=
  match target with
  | .undefined => .error (.propertyOfUndefined key)
  | .json .null => .error (.propertyOfNull key)
  | v => .ok (v.get key)

namespace Expr

variable {σ : Type}

def liftRuntime {α : Type} : Except RuntimeFault α → Run σ α
  | .ok a => pure a
  | .error f => throw (.runtime f)

def callAction (host : Host σ) (scope : Scope) (name : String) : Run σ Value :=
  match scope.action? name with
  | some (.function f) => do
      match ← host.invoke f scope.receiver with
      | .ok v => pure v
      | .error reason => throw (.runtime (.actionFailed name reason))
  | _ => throw (.runtime (.notFunction name))

mutual

def evaluate (host : Host σ) (scope : Scope) : Expr → Run σ Value
  | .literal _ l => pure l.toValue
  | .name _ s => match scope.resolve s with
      | .value v => pure v
      | .action _ => callAction host scope s
      | .absent => pure .undefined
  | .member _ e p => do
      let target ← evaluate host scope e
      liftRuntime (target.read p)
  | .index _ e k => do
      let target ← evaluate host scope e
      let key ← evaluate host scope k
      liftRuntime (target.read key.toKey)
  | .unary _ op e => do
      let v ← evaluate host scope e
      pure (op.apply v)
  | .binary _ op l r => do
      let a ← evaluate host scope l
      let b ← evaluate host scope r
      pure (op.apply a b)
  | .ternary _ p yes no => do
      let v ← evaluate host scope p
      if v.isTruthy then evaluate host scope yes else evaluate host scope no
  | .array _ items => do
      let vs ← evaluateItems host scope items
      pure (.json (.array vs))
  | .call _ s => callAction host scope s

def evaluateItems (host : Host σ) (scope : Scope) : List Expr → Run σ (List Json)
  | [] => pure []
  | e :: es => do
      let v ← evaluate host scope e
      let vs ← evaluateItems host scope es
      pure (v.toJson :: vs)

end

end Expr

end TemplateExpr
