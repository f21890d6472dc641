import TemplateExpr.Token.Basic
import TemplateExpr.Value.Basic

namespace TemplateExpr

inductive UnaryOp where
  | neg
  | not
  deriving DecidableEq

def UnaryOp.symbol : UnaryOp → Symbol
  | .neg => .minus
  | .not => .bang

inductive BinaryOp where
  | strictEq
  | strictNe
  | lt
  | le
  | gt
  | ge
  | add
  | sub
  | mul
  | div
  deriving DecidableEq

def BinaryOp.symbol : BinaryOp → Symbol
  | .strictEq => .strictEqual
  | .strictNe => .strictUnequal
  | .lt => .less
  | .le => .lessEqual
  | .gt => .greater
  | .ge => .greaterEqual
  | .add => .plus
  | .sub => .minus
  | .mul => .star
  | .div => .slash

inductive Literal where
  | undefined
  | null
  | boolean (b : Bool)
  | number (n : Number)
  | text (s : String)
  deriving DecidableEq

def Literal.toValue : Literal → Value
  | .undefined => .undefined
  | .null => .null
  | .boolean b => .boolean b
  | .number n => .json (.number n)
  | .text s => .text s

def Literal.ofKeyword : Keyword → Literal
  | .trueWord => .boolean true
  | .falseWord => .boolean false
  | .nullWord => .null
  | .undefinedWord => .undefined

def Literal.ofDouble (x : Double) : Literal :=
  match Number.ofDouble? x with
  | some n => .number n
  | none => .null

theorem Literal.toValue_ofDouble (x : Double) : (ofDouble x).toValue = Value.ofDouble x := by
  unfold ofDouble Value.ofDouble
  cases Number.ofDouble? x <;> rfl

inductive Expr where
  | literal (offset : Nat) (value : Literal)
  | name (offset : Nat) (s : String)
  | member (offset : Nat) (object : Expr) (property : String)
  | index (offset : Nat) (object key : Expr)
  | unary (offset : Nat) (op : UnaryOp) (operand : Expr)
  | binary (offset : Nat) (op : BinaryOp) (left right : Expr)
  | ternary (offset : Nat) (condition yes no : Expr)
  | array (offset : Nat) (items : List Expr)
  | call (offset : Nat) (s : String)

@[elab_as_elim, induction_eliminator]
theorem Expr.induct {motive : Expr → Prop} (literal : ∀ o l, motive (.literal o l))
    (name : ∀ o s, motive (.name o s)) (member : ∀ o e p, motive e → motive (.member o e p))
    (index : ∀ o e k, motive e → motive k → motive (.index o e k))
    (unary : ∀ o op e, motive e → motive (.unary o op e))
    (binary : ∀ o op l r, motive l → motive r → motive (.binary o op l r))
    (ternary : ∀ o p yes no, motive p → motive yes → motive no → motive (.ternary o p yes no))
    (array : ∀ o items, (∀ e ∈ items, motive e) → motive (.array o items))
    (call : ∀ o s, motive (.call o s)) (e : Expr) : motive e :=
  @Expr.rec motive (fun items => ∀ e ∈ items, motive e) literal name member index unary binary
    ternary array call (by simp) (fun _ _ h hs => List.forall_mem_cons.2 ⟨h, hs⟩) e

def Expr.offset : Expr → Nat
  | .literal o _ | .name o _ | .member o _ _ | .index o _ _ | .unary o _ _ | .binary o _ _ _
  | .ternary o _ _ _ | .array o _ | .call o _ => o

end TemplateExpr
