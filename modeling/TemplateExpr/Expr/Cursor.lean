import TemplateExpr.Token.Mistake

/-!
Positions among the tokens of an expression. Behind the last token a position reads as the end of
the expression and keeps the offset of that token.
-/
namespace TemplateExpr

/-- The tokens before a position, the last of them first, and those after it. -/
structure Cursor where
  before : List Located
  after : List Located

namespace Cursor

def ofTokens (ts : List Located) : Cursor :=
  ⟨[], ts⟩

def tokens (c : Cursor) : List Located :=
  c.before.reverse ++ c.after

def here (c : Cursor) : Located :=
  match c.after, c.before with
  | t :: _, _ => t
  | [], t :: _ => ⟨.stop, t.offset⟩
  | [], [] => ⟨.stop, 0⟩

def token (c : Cursor) : Token :=
  c.here.token

def offset (c : Cursor) : Nat :=
  c.here.offset

/-- The next token, or the last one where none is left. -/
def nearest (c : Cursor) : Located :=
  match c.after, c.before with
  | t :: _, _ => t
  | [], t :: _ => t
  | [], [] => ⟨.stop, 0⟩

def advance : Cursor → Cursor
  | ⟨before, t :: after⟩ => ⟨t :: before, after⟩
  | c => c

@[simp] theorem token_cons (before : List Located) (t : Located) (after : List Located) :
    token ⟨before, t :: after⟩ = t.token := rfl

@[simp] theorem offset_cons (before : List Located) (t : Located) (after : List Located) :
    offset ⟨before, t :: after⟩ = t.offset := rfl

@[simp] theorem advance_cons (before : List Located) (t : Located) (after : List Located) :
    advance ⟨before, t :: after⟩ = ⟨t :: before, after⟩ := rfl

@[simp] theorem tokens_advance (c : Cursor) : c.advance.tokens = c.tokens := by
  obtain ⟨before, _ | ⟨t, after⟩⟩ := c <;> simp [advance, tokens]

theorem after_eq_cons {c : Cursor} (h : c.token ≠ .stop) :
    c.after = ⟨c.token, c.offset⟩ :: c.advance.after := by
  obtain ⟨before, _ | ⟨t, after⟩⟩ := c
  · cases before <;> simp [token, here] at h
  · rfl

end Cursor

inductive Failure where
  | tooDeep (offset : Nat)
  | unexpected (expected : Expectation) (found : Located)
  deriving DecidableEq

def Failure.toMistake (limit : Nat) : Failure → Mistake
  | .tooDeep o => ⟨.tooDeep limit, o⟩
  | .unexpected e found => ⟨.unexpected e found.token, found.offset⟩

def Cursor.expect (c : Cursor) (s : Symbol) (e : Expectation) : Except Failure Cursor :=
  if c.token = .symbol s then .ok c.advance else .error (.unexpected e c.here)

@[simp] theorem Cursor.expect_cons (before after : List Located) (s : Symbol) (o : Nat)
    (e : Expectation) :
    Cursor.expect ⟨before, ⟨.symbol s, o⟩ :: after⟩ s e = .ok ⟨⟨.symbol s, o⟩ :: before, after⟩ := by
  simp [Cursor.expect]

theorem Cursor.expect_eq_ok {c c' : Cursor} {s : Symbol} {e : Expectation} :
    c.expect s e = .ok c' ↔ c.token = .symbol s ∧ c' = c.advance := by
  unfold Cursor.expect
  split <;> simp_all [eq_comm]

end TemplateExpr
