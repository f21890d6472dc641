import TemplateExpr.Proofs.Grammar.Derivation
import TemplateExpr.Proofs.Walk.Basic

/-!
The parser as a walk along the tokens, with two counters: its position among them and its depth of
nesting, which grows with every nested expression and every step of a chain and may not exceed the
limit. A walk breaks off where its position would pass the end of the tokens, and where a counter
would fall below zero.
-/
namespace TemplateExpr

structure Input where
  tokens : List Located
  limit : Nat

structure Counters where
  pos : Nat
  depth : Nat

namespace Counters

def start : Counters := ⟨0, 0⟩

def next (s : Counters) : Counters :=
  { s with pos := s.pos + 1 }

def back? (s : Counters) : Option Counters :=
  match s.pos with
  | 0 => none
  | pos + 1 => some { s with pos }

def deeper (s : Counters) : Counters :=
  { s with depth := s.depth + 1 }

def leave? (s : Counters) : Option Counters :=
  match s.depth with
  | 0 => none
  | depth + 1 => some { s with depth }

@[simp] theorem next_pos (s : Counters) : s.next.pos = s.pos + 1 := rfl

@[simp] theorem next_depth (s : Counters) : s.next.depth = s.depth := rfl

@[simp] theorem deeper_pos (s : Counters) : s.deeper.pos = s.pos := rfl

@[simp] theorem deeper_depth (s : Counters) : s.deeper.depth = s.depth + 1 := rfl

end Counters

namespace Input

def tokenAt (i : Input) (pos : Nat) : Token :=
  match i.tokens[pos]? with
  | some t => t.token
  | none => .stop

def offsetAt (i : Input) (pos : Nat) : Nat :=
  match i.tokens[pos]? with
  | some t => t.offset
  | none => match i.tokens.getLast? with
      | some t => t.offset
      | none => 0

def peek (i : Input) : Walk Counters Token := fun s => some (.ok (i.tokenAt s.pos), s)

def offset (i : Input) : Walk Counters Nat := fun s => some (.ok (i.offsetAt s.pos), s)

def step (i : Input) : Walk Counters Unit := fun s =>
  if s.pos < i.tokens.length then some (.ok (), s.next) else none

def advance (i : Input) : Walk Counters Token := do
  let t ← i.peek
  if (← get).pos < i.tokens.length then i.step
  pure t

/-- There is a token to put back, or the walk breaks off rather than stay at the start. -/
def putBack : Walk Counters Unit := fun s => do
  some (.ok (), ← s.back?)

def eat (i : Input) (t : Token) : Walk Counters Bool := do
  if (← i.peek) = t then
    i.step
    pure true
  else pure false

def unexpected {α : Type} (i : Input) (e : Expectation) : Walk Counters α := do
  let found ← i.peek
  let offset ← i.offset
  throw ⟨.unexpected e found, offset⟩

def expect (i : Input) (s : Symbol) (e : Expectation) : Walk Counters Unit := do
  if ← i.eat (.symbol s) then pure () else i.unexpected e

/-- One level deeper. The depth has grown also where it is too deep. -/
def enter (i : Input) : Walk Counters Unit := do
  modify Counters.deeper
  if i.limit < (← get).depth then throw ⟨.tooDeep i.limit, ← i.offset⟩

def eatOperator (i : Input) (operator? : Token → Option BinaryOp) :
    Walk Counters (Option BinaryOp) := do
  match operator? (← i.peek) with
  | some op =>
      i.step
      pure (some op)
  | none => pure none

def property (i : Input) : Walk Counters String := do
  match ← i.advance with
  | .name s => pure s
  | .word w => pure w.spelling
  | _ =>
      putBack
      i.unexpected .propertyName

mutual

noncomputable def expression (i : Input) : Walk Counters Expr := do
  i.enter
  fun s => do
    let (r, t) ← i |>.ternary s
    some (r, ← t.leave?)
partial_fixpoint

noncomputable def ternary (i : Input) : Walk Counters Expr := do
  let p ← i |>.binary .equality
  if ← i.eat (.symbol .question) then
    let yes ← i |>.expression
    i.expect .colon .colon
    let no ← i |>.expression
    pure (.ternary p.offset p yes no)
  else pure p
partial_fixpoint

/-- The levels that the operators of a chain have taken are given back at its end. -/
noncomputable def binary (i : Input) (p : Precedence) : Walk Counters Expr := fun s => do
  let (r, t) ← i |>.chain p s
  some (r, { t with depth := s.depth })
partial_fixpoint

noncomputable def operand (i : Input) (p : Precedence) : Walk Counters Expr :=
  match p with
  | .equality => i |>.binary .relational
  | .relational => i |>.binary .additive
  | .additive => i |>.binary .multiplicative
  | .multiplicative => i |>.unary
partial_fixpoint

noncomputable def chain (i : Input) (p : Precedence) : Walk Counters Expr := do
  let left ← i |>.operand p
  i |>.chainFrom p left
partial_fixpoint

noncomputable def chainFrom (i : Input) (p : Precedence) (left : Expr) : Walk Counters Expr := do
  match ← i.eatOperator p.operator? with
  | some op =>
      i.enter
      let right ← i |>.operand p
      i |>.chainFrom p (.binary left.offset op left right)
  | none => pure left
partial_fixpoint

noncomputable def unary (i : Input) : Walk Counters Expr := do
  let o ← i.offset
  match Rule.unaryOp? (← i.peek) with
  | some op =>
      let _ ← i.advance
      let e ← (do
        i.enter
        fun s => do
          let (r, t) ← i |>.unary s
          some (r, ← t.leave?) : Walk Counters Expr)
      pure (.unary o op e)
  | none => i |>.suffixed
partial_fixpoint

noncomputable def suffixed (i : Input) : Walk Counters Expr := fun s => do
  let (r, t) ← i |>.suffixes s
  some (r, { t with depth := s.depth })
partial_fixpoint

noncomputable def suffixes (i : Input) : Walk Counters Expr := do
  let e ← i |>.primary
  i |>.suffixesFrom e
partial_fixpoint

noncomputable def suffixesFrom (i : Input) (e : Expr) : Walk Counters Expr := do
  match Rule.Suffix.of e (← i.peek) with
  | .absent => pure e
  | .uncallable => i.unexpected .onlyNamedCalls
  | .property =>
      i.enter
      let _ ← i.advance
      let p ← i.property
      i |>.suffixesFrom (.member e.offset e p)
  | .index =>
      i.enter
      let _ ← i.advance
      let k ← i |>.expression
      i.expect .closeBracket .closeIndex
      i |>.suffixesFrom (.index e.offset e k)
  | .call o s =>
      i.enter
      let _ ← i.advance
      if (← i.peek) = .symbol .closeParen then
        let _ ← i.advance
        i |>.suffixesFrom (.call o s)
      else i.unexpected .noArguments
partial_fixpoint

noncomputable def primary (i : Input) : Walk Counters Expr := do
  let o ← i.offset
  match ← i.advance with
  | .number x => pure (.literal o (.ofDouble x))
  | .text s => pure (.literal o (.text s))
  | .word w => pure (.literal o (.ofKeyword w))
  | .name s => pure (.name o s)
  | .symbol .openParen =>
      let e ← i |>.expression
      i.expect .closeParen .closeParen
      pure e
  | .symbol .openBracket =>
      let es ← i |>.items
      pure (.array o es)
  | _ =>
      putBack
      i.unexpected .expression
partial_fixpoint

noncomputable def items (i : Input) : Walk Counters (List Expr) := do
  if ← i.eat (.symbol .closeBracket) then pure []
  else
    let e ← i |>.expression
    if ← i.eat (.symbol .comma) then
      let es ← i |>.items
      pure (e :: es)
    else
      i.expect .closeBracket .closeArray
      pure [e]
partial_fixpoint

end

noncomputable def parse (i : Input) : Walk Counters Expr := do
  if (← i.peek) = .stop then throw ⟨.emptyExpression, ← i.offset⟩
  else
    let e ← i.expression
    if (← i.peek) = .stop then pure e else i.unexpected .nothingMore

end Input

end TemplateExpr
