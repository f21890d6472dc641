import TemplateExpr.Expr.Basic
import TemplateExpr.Expr.Cursor
import TemplateExpr.Token.Scan

/-!
The rules of the grammar. A rule reads an expression at a position with a budget for nesting, and
leaves the position after it. Every nested expression, every operand of a unary operator and every
further step of a chain of operators or of properties takes one from the budget, so that the budget
bounds how far an evaluation descends.
-/
namespace TemplateExpr

abbrev Rule := Nat → Cursor → Except Failure (Expr × Cursor)

namespace Rule

/-- The items of an array after its opening bracket; a comma may follow the last one. The first
number bounds how many items are left, which are fewer than the tokens. -/
def items (nested : Rule) (budget : Nat) : Nat → Cursor → Except Failure (List Expr × Cursor)
  | 0, c => .error (.unexpected .closeArray c.here)
  | left + 1, c =>
      if c.token = .symbol .closeBracket then .ok ([], c.advance)
      else do
        let (e, c) ← nested budget c
        if c.token = .symbol .comma then do
          let (es, c) ← items nested budget left c.advance
          .ok (e :: es, c)
        else do
          let c ← c.expect .closeBracket .closeArray
          .ok ([e], c)

def primary (nested : Rule) : Rule := fun budget c =>
  match c.token with
  | .number x => .ok (.literal c.offset (.ofDouble x), c.advance)
  | .text s => .ok (.literal c.offset (.text s), c.advance)
  | .word w => .ok (.literal c.offset (.ofKeyword w), c.advance)
  | .name s => .ok (.name c.offset s, c.advance)
  | .symbol .openParen => do
      let (e, c) ← nested budget c.advance
      let c ← c.expect .closeParen .closeParen
      .ok (e, c)
  | .symbol .openBracket => do
      let (es, rest) ← items nested budget c.after.length c.advance
      .ok (.array c.offset es, rest)
  | _ => .error (.unexpected .expression c.nearest)

def property (c : Cursor) : Except Failure (String × Cursor) :=
  match c.token with
  | .name s => .ok (s, c.advance)
  | .word w => .ok (w.spelling, c.advance)
  | _ => .error (.unexpected .propertyName c.nearest)

inductive Suffix where
  | absent
  | property
  | index
  | call (offset : Nat) (name : String)
  | uncallable

def Suffix.of (e : Expr) : Token → Suffix
  | .symbol .dot => .property
  | .symbol .openBracket => .index
  | .symbol .openParen => match e with
      | .name o s => .call o s
      | _ => .uncallable
  | _ => .absent

theorem Suffix.of_eq_property {e : Expr} {t : Token} :
    Suffix.of e t = .property ↔ t = .symbol .dot := by
  unfold Suffix.of
  split
  case h_3 => split <;> simp
  all_goals simp_all

theorem Suffix.of_eq_index {e : Expr} {t : Token} :
    Suffix.of e t = .index ↔ t = .symbol .openBracket := by
  unfold Suffix.of
  split
  case h_3 => split <;> simp
  all_goals simp_all

theorem Suffix.of_eq_call {e : Expr} {t : Token} {o : Nat} {s : String} :
    Suffix.of e t = .call o s ↔ t = .symbol .openParen ∧ e = .name o s := by
  unfold Suffix.of
  split
  case h_3 => split <;> simp_all
  all_goals simp_all

def suffixes (nested : Rule) : Nat → Expr → Cursor → Except Failure (Expr × Cursor)
  | budget, e, c => match Suffix.of e c.token with
      | .absent => .ok (e, c)
      | .uncallable => .error (.unexpected .onlyNamedCalls c.here)
      | .property => match budget with
          | 0 => .error (.tooDeep c.offset)
          | budget + 1 => do
              let (p, c) ← property c.advance
              suffixes nested budget (.member e.offset e p) c
      | .index => match budget with
          | 0 => .error (.tooDeep c.offset)
          | budget + 1 => do
              let (k, c) ← nested budget c.advance
              let c ← c.expect .closeBracket .closeIndex
              suffixes nested budget (.index e.offset e k) c
      | .call o s => match budget with
          | 0 => .error (.tooDeep c.offset)
          | budget + 1 => do
              let c ← c.advance.expect .closeParen .noArguments
              suffixes nested budget (.call o s) c

def suffixed (nested : Rule) : Rule := fun budget c => do
  let (e, c) ← primary nested budget c
  suffixes nested budget e c

def unaryOp? : Token → Option UnaryOp
  | .symbol .minus => some .neg
  | .symbol .bang => some .not
  | _ => none

def unary (operand : Rule) : Rule
  | budget, c => match unaryOp? c.token with
      | none => operand budget c
      | some op => match budget with
          | 0 => .error (.tooDeep c.advance.offset)
          | budget + 1 => do
              let (e, rest) ← unary operand budget c.advance
              .ok (.unary c.offset op e, rest)

theorem unary_of_none {operand : Rule} {budget : Nat} {c : Cursor} (h : unaryOp? c.token = none) :
    unary operand budget c = operand budget c := by
  rw [unary, h]

theorem unary_zero {operand : Rule} {c : Cursor} {op : UnaryOp} (h : unaryOp? c.token = some op) :
    unary operand 0 c = .error (.tooDeep c.advance.offset) := by
  rw [unary, h]

theorem unary_succ {operand : Rule} {budget : Nat} {c : Cursor} {op : UnaryOp}
    (h : unaryOp? c.token = some op) :
    unary operand (budget + 1) c = (do
      let (e, rest) ← unary operand budget c.advance
      .ok (.unary c.offset op e, rest)) := by
  rw [unary, h]

def chain (operator? : Token → Option BinaryOp) (operand : Rule) :
    Nat → Expr → Cursor → Except Failure (Expr × Cursor)
  | budget, left, c => match operator? c.token with
      | none => .ok (left, c)
      | some op => match budget with
          | 0 => .error (.tooDeep c.advance.offset)
          | budget + 1 => do
              let (right, c) ← operand budget c.advance
              chain operator? operand budget (.binary left.offset op left right) c

section

variable {operator? : Token → Option BinaryOp} {operand : Rule} {budget : Nat} {e : Expr}
  {c : Cursor} {op : BinaryOp}

theorem chain_of_none (h : operator? c.token = none) :
    chain operator? operand budget e c = .ok (e, c) := by
  rw [chain, h]

theorem chain_zero (h : operator? c.token = some op) :
    chain operator? operand 0 e c = .error (.tooDeep c.advance.offset) := by
  rw [chain, h]

theorem chain_succ (h : operator? c.token = some op) :
    chain operator? operand (budget + 1) e c = (do
      let (right, c) ← operand budget c.advance
      chain operator? operand budget (.binary e.offset op e right) c) := by
  rw [chain, h]

end

def binary (operator? : Token → Option BinaryOp) (operand : Rule) : Rule := fun budget c => do
  let (e, c) ← operand budget c
  chain operator? operand budget e c

def equality? : Token → Option BinaryOp
  | .symbol .strictEqual => some .strictEq
  | .symbol .strictUnequal => some .strictNe
  | _ => none

def relational? : Token → Option BinaryOp
  | .symbol .less => some .lt
  | .symbol .lessEqual => some .le
  | .symbol .greater => some .gt
  | .symbol .greaterEqual => some .ge
  | _ => none

def additive? : Token → Option BinaryOp
  | .symbol .plus => some .add
  | .symbol .minus => some .sub
  | _ => none

def multiplicative? : Token → Option BinaryOp
  | .symbol .star => some .mul
  | .symbol .slash => some .div
  | _ => none

def operators (nested : Rule) : Rule :=
  binary equality? <| binary relational? <| binary additive? <| binary multiplicative? <|
    unary (suffixed nested)

def ternary (nested : Rule) : Rule := fun budget c => do
  let (p, c) ← operators nested budget c
  if c.token = .symbol .question then do
    let (yes, c) ← nested budget c.advance
    let c ← c.expect .colon .colon
    let (no, c) ← nested budget c
    .ok (.ternary p.offset p yes no, c)
  else .ok (p, c)

/-- An expression with a budget up to the first number. Nested expressions have less. -/
def expression : Nat → Rule
  | _, 0, c => .error (.tooDeep c.offset)
  | 0, _, c => .error (.tooDeep c.offset)
  | bound + 1, budget + 1, c => ternary (expression bound) budget c

end Rule

namespace Expr

def ofTokens (limit : Nat) (ts : List Located) : Except Mistake Expr :=
  let c := Cursor.ofTokens ts
  if c.token = .stop then .error ⟨.emptyExpression, c.offset⟩
  else match Rule.expression limit limit c with
    | .error f => .error (f.toMistake limit)
    | .ok (e, rest) =>
        if rest.token = .stop then .ok e
        else .error ((Failure.unexpected .nothingMore rest.here).toMistake limit)

def parse (limit : Nat) (source : String) : Except Mistake Expr := do
  ofTokens limit (← Token.scan source)

end Expr

end TemplateExpr
