import TemplateExpr.Text.Blank
import TemplateExpr.Token.Numeric
import TemplateExpr.Token.Quoted

namespace TemplateExpr.Token

def reserved : List String :=
  ["await", "case", "catch", "class", "const", "delete", "do", "else", "export", "for",
    "function", "if", "import", "in", "instanceof", "let", "new", "return", "switch", "throw",
    "try", "typeof", "var", "void", "while", "with", "yield"]

def ofWord (offset : Nat) (w : String) : Except Mistake Token :=
  match Keyword.all.find? (·.spelling = w) with
  | some k => .ok (.word k)
  | none =>
      if w ∈ reserved then .error ⟨.reservedWord w, offset⟩
      else .ok (.name w)

def readWord (offset : Nat) (cs : List Char) : Except Mistake (Token × List Char) := do
  let t ← ofWord offset (String.ofList (cs.takeWhile Text.isIdentifierPart))
  .ok (t, cs.dropWhile Text.isIdentifierPart)

theorem readWord_append {offset : Nat} {c : Char} {cs rest : List Char} {t : Token}
    (hc : Text.isIdentifierPart c) (h : readWord offset (c :: cs) = .ok (t, rest)) :
    ∃ lexeme, lexeme ≠ [] ∧ c :: cs = lexeme ++ rest := by
  obtain ⟨_, _, h⟩ := bind_eq_ok.1 h
  simp only [Except.ok.injEq, Prod.mk.injEq] at h
  refine ⟨(c :: cs).takeWhile Text.isIdentifierPart, ?_, ?_⟩
  · simp [hc]
  · rw [← h.2, List.takeWhile_append_dropWhile]

def readSymbol (offset : Nat) : Char → List Char → Except Mistake (Token × List Char)
  | '+', cs => .ok (.symbol .plus, cs)
  | '-', cs => .ok (.symbol .minus, cs)
  | '*', cs => .ok (.symbol .star, cs)
  | '/', cs => .ok (.symbol .slash, cs)
  | '?', cs => .ok (.symbol .question, cs)
  | ':', cs => .ok (.symbol .colon, cs)
  | '.', cs => .ok (.symbol .dot, cs)
  | ',', cs => .ok (.symbol .comma, cs)
  | '[', cs => .ok (.symbol .openBracket, cs)
  | ']', cs => .ok (.symbol .closeBracket, cs)
  | '(', cs => .ok (.symbol .openParen, cs)
  | ')', cs => .ok (.symbol .closeParen, cs)
  | '<', '=' :: cs => .ok (.symbol .lessEqual, cs)
  | '<', cs => .ok (.symbol .less, cs)
  | '>', '=' :: cs => .ok (.symbol .greaterEqual, cs)
  | '>', cs => .ok (.symbol .greater, cs)
  | '=', '=' :: '=' :: cs => .ok (.symbol .strictEqual, cs)
  | '=', '=' :: _ => .error ⟨.looseEquality, offset⟩
  | '=', _ => .error ⟨.assignment, offset⟩
  | '!', '=' :: '=' :: cs => .ok (.symbol .strictUnequal, cs)
  | '!', '=' :: _ => .error ⟨.looseInequality, offset⟩
  | '!', cs => .ok (.symbol .bang, cs)
  | c, _ =>
      if c ∈ ['%', '&', '|', '^', '~'] then .error ⟨.unsupportedOperator c, offset⟩
      else .error ⟨.unexpectedCharacter c, offset⟩

theorem readSymbol_append {offset : Nat} {c : Char} {cs rest : List Char} {t : Token}
    (h : readSymbol offset c cs = .ok (t, rest)) :
    ∃ lexeme, lexeme ≠ [] ∧ c :: cs = lexeme ++ rest := by
  unfold readSymbol at h
  split at h
  case h_18 | h_19 | h_21 => simp at h
  case h_23 => split at h <;> simp at h
  all_goals
    simp only [Except.ok.injEq, Prod.mk.injEq] at h
    obtain ⟨_, rfl⟩ := h
  case h_13 | h_15 => exact ⟨[_, _], by simp, rfl⟩
  case h_17 | h_20 => exact ⟨[_, _, _], by simp, rfl⟩
  all_goals exact ⟨[_], by simp, rfl⟩

def read (offset : Nat) (c : Char) (cs : List Char) : Except Mistake (Token × List Char) :=
  if c.isDigit || c == '.' && startsWith Char.isDigit cs then readNumber offset (c :: cs)
  else if c = '"' ∨ c = '\'' then do
    let (body, rest) ← readText c offset (offset + 1) cs
    .ok (.text (String.ofList body), rest)
  else if Text.isIdentifierStart c then readWord offset (c :: cs)
  else readSymbol offset c cs

theorem read_append {offset : Nat} {c : Char} {cs rest : List Char} {t : Token}
    (h : read offset c cs = .ok (t, rest)) : ∃ lexeme, lexeme ≠ [] ∧ c :: cs = lexeme ++ rest := by
  unfold read at h
  split at h
  · exact readNumber_append h
  split at h
  · obtain ⟨⟨_, r⟩, hr, he⟩ := bind_eq_ok.1 h
    simp only [Except.ok.injEq, Prod.mk.injEq] at he
    obtain ⟨inner, rfl⟩ := readText_append hr
    exact ⟨c :: inner, by simp [he.2]⟩
  split at h
  · rename_i hc
    exact readWord_append (by simp [Text.isIdentifierPart, hc]) h
  · exact readSymbol_append h

theorem read_length_lt {offset : Nat} {c : Char} {cs rest : List Char} {t : Token}
    (h : read offset c cs = .ok (t, rest)) : rest.length < (c :: cs).length := by
  obtain ⟨lexeme, hne, e⟩ := read_append h
  rw [e, List.length_append]
  have := List.length_pos_iff.2 hne
  omega

def scanFrom (offset : Nat) (cs : List Char) : Except Mistake (List Located) :=
  let here := offset + Text.size (cs.takeWhile Text.isSpace)
  match _hcs : cs.dropWhile Text.isSpace with
  | [] => .ok [⟨.stop, here⟩]
  | c :: rest => match _h : read here c rest with
      | .error e => .error e
      | .ok (t, rest') => do
          let ts ← scanFrom (here + (Text.size (c :: rest) - Text.size rest')) rest'
          .ok (⟨t, here⟩ :: ts)
termination_by cs.length
decreasing_by
  have := read_length_lt _h
  rw [← _hcs] at this
  exact Nat.lt_of_lt_of_le this (List.dropWhile_suffix _).length_le

theorem scanFrom_eq (offset : Nat) (cs : List Char) :
    scanFrom offset cs = match cs.dropWhile Text.isSpace with
      | [] => .ok [⟨.stop, offset + Text.size (cs.takeWhile Text.isSpace)⟩]
      | c :: rest => match read (offset + Text.size (cs.takeWhile Text.isSpace)) c rest with
          | .error e => .error e
          | .ok (t, rest') => (scanFrom (offset + Text.size (cs.takeWhile Text.isSpace) +
              (Text.size (c :: rest) - Text.size rest')) rest').map
                (⟨t, offset + Text.size (cs.takeWhile Text.isSpace)⟩ :: ·) := by
  rw [scanFrom]
  split
  · rename_i h
    rw [h]
  · rename_i h
    rw [h]
    split
    · rename_i hr
      simp only [hr]
    · rename_i hr
      simp only [hr]
      cases scanFrom _ _ <;> rfl

def scan (source : String) : Except Mistake (List Located) :=
  scanFrom 0 source.toList

end TemplateExpr.Token
