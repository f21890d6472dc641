import TemplateExpr.Decimal.Numeral
import TemplateExpr.Text.Identifier
import TemplateExpr.Text.Size
import TemplateExpr.Token.Mistake

namespace TemplateExpr.Token

def startsWith (p : Char → Bool) (cs : List Char) : Bool :=
  cs.head?.any p

/-- The digits of a number, with a point among or before them if a digit follows it, and what
follows them. -/
def mantissaLexeme (cs : List Char) : List Char × List Char :=
  match cs.dropWhile Char.isDigit with
  | '.' :: rest =>
      if startsWith Char.isDigit rest then
        (cs.takeWhile Char.isDigit ++ '.' :: rest.takeWhile Char.isDigit, rest.dropWhile Char.isDigit)
      else (cs.takeWhile Char.isDigit, '.' :: rest)
  | rest => (cs.takeWhile Char.isDigit, rest)

theorem mantissaLexeme_append (cs : List Char) :
    (mantissaLexeme cs).1 ++ (mantissaLexeme cs).2 = cs := by
  have h := List.takeWhile_append_dropWhile (p := Char.isDigit) (l := cs)
  unfold mantissaLexeme
  split
  · rename_i rest hr
    rw [hr] at h
    split
    · simp [h]
    · exact h
  · exact h

def exponentMark : List Char → List Char × List Char
  | [] => ([], [])
  | e :: cs =>
      if e = 'e' ∨ e = 'E' then
        match cs with
        | '+' :: rest => ([e, '+'], rest)
        | '-' :: rest => ([e, '-'], rest)
        | rest => ([e], rest)
      else ([], e :: cs)

theorem exponentMark_append (cs : List Char) : (exponentMark cs).1 ++ (exponentMark cs).2 = cs := by
  unfold exponentMark
  split
  · rfl
  · split
    · split <;> simp
    · rfl

def exponentLexeme (cs : List Char) : List Char × List Char × List Char :=
  let rest := (exponentMark cs).2
  if (exponentMark cs).1.isEmpty then ([], [], cs)
  else ((exponentMark cs).1, rest.takeWhile Char.isDigit, rest.dropWhile Char.isDigit)

theorem exponentLexeme_append (cs : List Char) :
    (exponentLexeme cs).1 ++ ((exponentLexeme cs).2.1 ++ (exponentLexeme cs).2.2) = cs := by
  unfold exponentLexeme
  dsimp only
  split
  · rfl
  · rw [List.takeWhile_append_dropWhile, exponentMark_append]

def readNumber (offset : Nat) (cs : List Char) : Except Mistake (Token × List Char) :=
  let (mantissa, rest) := mantissaLexeme cs
  let (mark, power, rest) := exponentLexeme rest
  let lexeme := mantissa ++ (mark ++ power)
  if !mark.isEmpty && power.isEmpty then .error ⟨.missingExponent, offset + Text.size lexeme⟩
  else if startsWith Text.isIdentifierPart rest then
    .error ⟨.nameAfterNumber, offset + Text.size lexeme⟩
  else match Numeral.ofText? lexeme with
    | some n => .ok (.number n.toDouble, rest)
    | none => .error ⟨.malformedNumber, offset⟩

theorem readNumber_append {offset : Nat} {cs rest : List Char} {t : Token}
    (h : readNumber offset cs = .ok (t, rest)) : ∃ lexeme, lexeme ≠ [] ∧ cs = lexeme ++ rest := by
  have hm := mantissaLexeme_append cs
  have he := exponentLexeme_append (mantissaLexeme cs).2
  simp only [readNumber] at h
  split at h
  · simp at h
  split at h
  · simp at h
  split at h
  · rename_i n hn
    simp only [Except.ok.injEq, Prod.mk.injEq] at h
    refine ⟨(mantissaLexeme cs).1 ++ ((exponentLexeme (mantissaLexeme cs).2).1 ++
      (exponentLexeme (mantissaLexeme cs).2).2.1), fun e => ?_, ?_⟩
    · rw [e] at hn
      simp [Numeral.ofText?, Numeral.sign, Numeral.mantissa] at hn
    · rw [← h.2, List.append_assoc, List.append_assoc, he, hm]
  · simp at h

end TemplateExpr.Token
