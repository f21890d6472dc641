import TemplateExpr.Outcome
import TemplateExpr.Text.Hex
import TemplateExpr.Text.Units
import TemplateExpr.Token.Mistake

namespace TemplateExpr.Token

def unescape : Char → Char
  | 'n' => '\n'
  | 't' => '\t'
  | 'r' => '\r'
  | 'b' => '\x08'
  | 'f' => '\x0c'
  | 'v' => '\x0b'
  | '0' => '\x00'
  | c => c

/-- The characters of a text up to its closing quote, and what follows; `start` is the offset of
the opening quote and `offset` that of the characters. -/
def readText (quote : Char) (start : Nat) :
    Nat → List Char → Except Mistake (List Char × List Char)
  | _, [] => .error ⟨.unterminatedText, start⟩
  | offset, '\\' :: 'u' :: cs =>
      match cs with
      | a :: b :: c :: d :: rest =>
          match Text.unitOfHex? a b c d with
          | some u => do
              let (body, rest) ← readText quote start (offset + 6) rest
              .ok (Text.ofUnit u :: body, rest)
          | none => .error ⟨.badEscape, offset⟩
      | _ => .error ⟨.badEscape, offset⟩
  | _, ['\\'] => .error ⟨.unterminatedText, start⟩
  | offset, '\\' :: c :: cs => do
      let (body, rest) ← readText quote start (offset + 1 + c.utf8Size) cs
      .ok (unescape c :: body, rest)
  | offset, c :: cs =>
      if c = '\n' then .error ⟨.unterminatedText, start⟩
      else if c = quote then .ok ([], cs)
      else do
        let (body, rest) ← readText quote start (offset + c.utf8Size) cs
        .ok (c :: body, rest)

theorem readText_append {quote : Char} {start offset : Nat} {cs body rest : List Char}
    (h : readText quote start offset cs = .ok (body, rest)) : ∃ inner, cs = inner ++ rest := by
  fun_induction readText quote start offset cs generalizing body rest with
  | case1 => simp at h
  | case2 offset a b c d cs u hu ih =>
      obtain ⟨⟨_, r⟩, hr, he⟩ := bind_eq_ok.1 h
      simp only [Except.ok.injEq, Prod.mk.injEq] at he
      obtain ⟨inner, rfl⟩ := ih hr
      exact ⟨'\\' :: 'u' :: a :: b :: c :: d :: inner, by simp [he.2]⟩
  | case3 => simp at h
  | case4 => simp at h
  | case5 => simp at h
  | case6 offset c cs _ ih =>
      obtain ⟨⟨_, r⟩, hr, he⟩ := bind_eq_ok.1 h
      simp only [Except.ok.injEq, Prod.mk.injEq] at he
      obtain ⟨inner, rfl⟩ := ih hr
      exact ⟨'\\' :: c :: inner, by simp [he.2]⟩
  | case7 => simp at h
  | case8 =>
      simp only [Except.ok.injEq, Prod.mk.injEq] at h
      exact ⟨[quote], by simp [h.2]⟩
  | case9 offset c cs _ _ _ _ _ ih =>
      obtain ⟨⟨_, r⟩, hr, he⟩ := bind_eq_ok.1 h
      simp only [Except.ok.injEq, Prod.mk.injEq] at he
      obtain ⟨inner, rfl⟩ := ih hr
      exact ⟨c :: inner, by simp [he.2]⟩

end TemplateExpr.Token
