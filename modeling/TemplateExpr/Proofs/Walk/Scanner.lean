import TemplateExpr.Proofs.Text.Position
import TemplateExpr.Proofs.Walk.Basic

/-!
The scanner as a walk along the bytes of a text. Every position that it moves to, and both ends of
every part of the text that it takes, must be boundaries of characters, or else the walk breaks off.
-/
namespace TemplateExpr

structure Scanner where
  text : List Char

namespace Scanner

open Text

def rest (l : Scanner) : Walk Nat (List Char) := fun pos => do
  let (_, cs) ← splitAt? pos l.text
  some (.ok cs, pos)

def since (l : Scanner) (start : Nat) : Walk Nat (List Char) := fun pos => do
  let (before, _) ← splitAt? pos l.text
  let (_, cs) ← splitAt? start before
  some (.ok cs, pos)

def moveBy (l : Scanner) (n : Nat) : Walk Nat Unit := fun pos => do
  let _ ← splitAt? (pos + n) l.text
  some (.ok (), pos + n)

def peek (l : Scanner) : Walk Nat (Option Char) := do
  pure (← l.rest).head?

def peekSecond (l : Scanner) : Walk Nat (Option Char) := do
  pure (← l.rest).tail.head?

def advance (l : Scanner) : Walk Nat (Option Char) := do
  match ← l.peek with
  | some c =>
      l.moveBy c.utf8Size
      pure (some c)
  | none => pure none

def eat (l : Scanner) (c : Char) : Walk Nat Bool := do
  if (← l.peek) = some c then
    l.moveBy c.utf8Size
    pure true
  else pure false

/-- Moves by one byte, over a character that should have no more. -/
def eatByte (l : Scanner) (p : Char → Bool) : Walk Nat Bool := do
  if (← l.peek).any p then
    l.moveBy 1
    pure true
  else pure false

noncomputable def skip (l : Scanner) (p : Char → Bool) : Walk Nat Unit := do
  if ← l.eatByte p then l |>.skip p else pure ()
partial_fixpoint

noncomputable def eatDigits (l : Scanner) : Walk Nat Nat := do
  let start ← get
  l.skip Char.isDigit
  pure ((← get) - start)

/-- The digits of a number after its first character, which may be the point. -/
noncomputable def mantissa (l : Scanner) (start : Nat) : Walk Nat Unit := do
  let first ← l.since start
  let _ ← l.eatDigits
  let next ← l.peek
  let second ← l.peekSecond
  if first ≠ ['.'] ∧ next = some '.' ∧ second.any Char.isDigit then
    l.moveBy 1
    let _ ← l.eatDigits
    pure ()
  else pure ()

noncomputable def exponent (l : Scanner) : Walk Nat Unit := do
  if ← l.eatByte fun c => c = 'e' ∨ c = 'E' then
    let _ ← l.eatByte fun c => c = '+' ∨ c = '-'
    if (← l.eatDigits) = 0 then throw ⟨.missingExponent, ← get⟩ else pure ()
  else pure ()

def numeral (l : Scanner) (start : Nat) : Walk Nat Token := do
  if (← l.peek).any isIdentifierPart then throw ⟨.nameAfterNumber, ← get⟩
  else match Numeral.ofText? (← l.since start) with
    | some n => pure (.number n.toDouble)
    | none => throw ⟨.malformedNumber, start⟩

noncomputable def number (l : Scanner) (start : Nat) : Walk Nat Token := do
  l.mantissa start
  l.exponent
  l.numeral start

def unit? : List Char → Option Nat
  | [a, b, c, d] => unitOfHex? a b c d
  | _ => none

def unitEscape (l : Scanner) (escapeAt : Nat) : Walk Nat Char := do
  match (splitAt? 4 (← l.rest)).bind fun r => unit? r.1 with
  | some u =>
      l.moveBy 4
      pure (ofUnit u)
  | none => throw ⟨.badEscape, escapeAt⟩

def escape (l : Scanner) (escapeAt : Nat) (c : Char) : Walk Nat Char :=
  if c = 'u' then l.unitEscape escapeAt else pure (Token.unescape c)

noncomputable def quoted (l : Scanner) (quote : Char) (start : Nat) :
    Walk Nat (List Char) := do
  match ← l.advance with
  | none => throw ⟨.unterminatedText, start⟩
  | some c =>
      if c = '\n' then throw ⟨.unterminatedText, start⟩
      else if c = '\\' then
        let pos ← get
        match ← l.advance with
        | none => throw ⟨.unterminatedText, start⟩
        | some c =>
            let d ← l.escape (pos - 1) c
            let body ← l |>.quoted quote start
            pure (d :: body)
      else if c = quote then pure []
      else
        let body ← l |>.quoted quote start
        pure (c :: body)
partial_fixpoint

noncomputable def word (l : Scanner) (start : Nat) : Walk Nat Token := do
  l.skip isIdentifierPart
  let w ← l.since start
  fun pos => some (Token.ofWord start (String.ofList w), pos)

def symbol (l : Scanner) (offset : Nat) : Char → Walk Nat Token
  | '+' => pure (.symbol .plus)
  | '-' => pure (.symbol .minus)
  | '*' => pure (.symbol .star)
  | '/' => pure (.symbol .slash)
  | '?' => pure (.symbol .question)
  | ':' => pure (.symbol .colon)
  | '.' => pure (.symbol .dot)
  | ',' => pure (.symbol .comma)
  | '[' => pure (.symbol .openBracket)
  | ']' => pure (.symbol .closeBracket)
  | '(' => pure (.symbol .openParen)
  | ')' => pure (.symbol .closeParen)
  | '<' => do
      if ← l.eat '=' then pure (.symbol .lessEqual) else pure (.symbol .less)
  | '>' => do
      if ← l.eat '=' then pure (.symbol .greaterEqual) else pure (.symbol .greater)
  | '=' => do
      if ← l.eat '=' then
        if ← l.eat '=' then pure (.symbol .strictEqual) else throw ⟨.looseEquality, offset⟩
      else throw ⟨.assignment, offset⟩
  | '!' => do
      if ← l.eat '=' then
        if ← l.eat '=' then pure (.symbol .strictUnequal) else throw ⟨.looseInequality, offset⟩
      else pure (.symbol .bang)
  | c =>
      if c ∈ ['%', '&', '|', '^', '~'] then throw ⟨.unsupportedOperator c, offset⟩
      else throw ⟨.unexpectedCharacter c, offset⟩

noncomputable def token (l : Scanner) (offset : Nat) (c : Char) : Walk Nat Token := do
  let next ← l.peek
  if c.isDigit || c == '.' && next.any Char.isDigit then l.number offset
  else if c = '"' ∨ c = '\'' then
    let body ← l.quoted c offset
    pure (.text (String.ofList body))
  else if isIdentifierStart c then l.word offset
  else l.symbol offset c

noncomputable def next (l : Scanner) : Walk Nat Located := do
  l.skip isSpace
  let offset ← get
  match ← l.advance with
  | some c =>
      let t ← l.token offset c
      pure ⟨t, offset⟩
  | none => pure ⟨.stop, offset⟩

noncomputable def tokens (l : Scanner) : Walk Nat (List Located) := do
  let t ← l.next
  if t.token = .stop then pure [t]
  else
    let ts ← l |>.tokens
    pure (t :: ts)
partial_fixpoint

end Scanner

end TemplateExpr
