import TemplateExpr.Proofs.Walk.Numbers
import TemplateExpr.Proofs.Walk.Quoted
import TemplateExpr.Proofs.Walk.Safe

namespace TemplateExpr.Scanner

open Text

variable {l : Scanner} {cs : List Char} {pos start offset : Nat} {c : Char}

section

variable {α : Type} {f : Bool → Walk Nat α} {o : Except Mistake (α × List Char)}

theorem Reads.eat_cons (h : StandsAt l.text pos (c :: cs))
    (hr : Reads l (f true) (pos + c.utf8Size) o) : Reads l (l.eat c >>= f) pos o :=
  hr.of_eq (Walk.bind_of_ok (Scanner.eat_cons h) f)

theorem Reads.eat_of_ne (h : StandsAt l.text pos cs) (hne : ∀ rest, cs = c :: rest → False)
    (hr : Reads l (f false) pos o) : Reads l (l.eat c >>= f) pos o := by
  refine hr.of_eq (Walk.bind_of_ok (Scanner.eat_of_ne h fun hhead => ?_) f)
  obtain ⟨rest, hcs⟩ := List.head?_eq_some_iff.1 hhead
  exact hne rest hcs

end

theorem ofWord_eq_error {w : String} {m : Mistake} (h : Token.ofWord start w = .error m) :
    m = ⟨.reservedWord w, start⟩ := by
  unfold Token.ofWord at h
  split at h
  · cases h
  split at h
  · cases h
    rfl
  · cases h

theorem word_reads (h : StandsAt l.text start (c :: cs)) (hc : isIdentifierPart c = true) :
    Reads l (l.word start) (start + 1) (Token.readWord start (c :: cs)) := by
  have hall := standsAt_dropWhile isIdentifierPart h
  have hnext := h.next
  rw [oneByte_isIdentifierPart c hc] at hnext
  have hsize : size ((c :: cs).takeWhile isIdentifierPart) =
      1 + size (cs.takeWhile isIdentifierPart) := by
    rw [List.takeWhile_cons_of_pos hc, size_cons, oneByte_isIdentifierPart c hc]
  have hskip := skip_apply oneByte_isIdentifierPart hnext
  rw [Nat.add_assoc, ← hsize] at hskip
  have hstart := h
  rw [← List.takeWhile_append_dropWhile (p := isIdentifierPart) (l := c :: cs)] at hstart
  have hsince := since_apply hstart hall
  rw [word, Token.readWord]
  refine .of_eq (.of_eq ?_ (Walk.bind_of_ok hsince _)) (Walk.bind_of_ok hskip _)
  generalize (c :: cs).takeWhile isIdentifierPart = w at hall
  have hmistake (m : Mistake) :
      Token.ofWord start (String.ofList w) = .error m → m = ⟨.reservedWord (String.ofList w), start⟩ :=
    ofWord_eq_error
  generalize Token.ofWord start (String.ofList w) = o at hmistake
  cases o with
  | ok t => exact .ok rfl ⟨rfl, hall⟩
  | error m =>
      obtain rfl := hmistake m rfl
      exact .error rfl ⟨rfl, h.boundary, by simp, hall.boundary⟩

theorem symbol_reads (h : StandsAt l.text pos cs) (hoffset : Boundary l.text offset) :
    Reads l (l.symbol offset c) pos (Token.readSymbol offset c cs) := by
  unfold Token.readSymbol
  split
  case h_13 | h_15 => exact .eat_cons h (.pure h.next)
  case h_14 hnot | h_16 hnot => exact .eat_of_ne h hnot (.pure h)
  case h_17 | h_20 => exact .eat_cons h (.eat_cons h.next (.pure h.next.next))
  case h_18 hnot | h_21 hnot =>
    refine .eat_cons h (.eat_of_ne h.next ?_ (.throw h.next hoffset (by simp)))
    rintro rest rfl
    exact hnot rest rfl
  case h_19 hnot => exact .eat_of_ne h hnot (.throw h hoffset (by simp))
  case h_22 hnot => exact .eat_of_ne h hnot (.pure h)
  case h_23 =>
    rw [symbol]
    · split <;> exact .throw h hoffset (by simp)
    all_goals assumption
  all_goals exact .pure h

theorem token_reads (h : StandsAt l.text offset (c :: cs)) :
    Reads l (l.token offset c) (offset + c.utf8Size) (Token.read offset c cs) := by
  have hnext := h.next
  rw [token]
  refine .of_eq ?_ (Walk.bind_of_ok (peek_apply hnext) _)
  unfold Token.read
  by_cases hnumber : (c.isDigit || c == '.' && Token.startsWith Char.isDigit cs) = true
  · have hpeek : (c.isDigit || c == '.' && cs.head?.any Char.isDigit) = true := hnumber
    rw [if_pos hpeek, if_pos hnumber, utf8Size_of_number hnumber]
    exact number_reads h hnumber
  have hpeek : ¬ (c.isDigit || c == '.' && cs.head?.any Char.isDigit) = true := hnumber
  rw [if_neg hpeek, if_neg hnumber]
  by_cases hquote : c = '"' ∨ c = '\''
  · have hsize : c.utf8Size = 1 := by rcases hquote with rfl | rfl <;> rfl
    rw [hsize] at hnext ⊢
    rw [if_pos hquote, if_pos hquote]
    refine (quoted_reads hnext h.boundary).bind ?_
    intro body t cs₁ h₁
    exact .pure h₁
  rw [if_neg hquote, if_neg hquote]
  by_cases hname : isIdentifierStart c = true
  · have hpart : isIdentifierPart c = true := by simp [isIdentifierPart, hname]
    rw [if_pos hname, if_pos hname, oneByte_isIdentifierPart c hpart]
    exact word_reads h hpart
  rw [if_neg hname, if_neg hname]
  exact symbol_reads hnext h.boundary

theorem next_of_nil (h : StandsAt l.text pos cs) (hcs : cs.dropWhile isSpace = []) :
    l.next pos = some (.ok ⟨.stop, pos + size (cs.takeWhile isSpace)⟩,
      pos + size (cs.takeWhile isSpace)) := by
  have hend := standsAt_dropWhile isSpace h
  rw [hcs] at hend
  rw [next, Walk.bind_of_ok (skip_apply oneByte_isSpace h), Walk.bind_of_ok (Walk.get_apply _),
    Walk.bind_of_ok (advance_nil hend)]
  rfl

theorem next_of_cons {rest : List Char} (h : StandsAt l.text pos cs)
    (hcs : cs.dropWhile isSpace = c :: rest) :
    l.next pos = (do
      let t ← l.token (pos + size (cs.takeWhile isSpace)) c
      pure ⟨t, pos + size (cs.takeWhile isSpace)⟩ : Walk Nat Located)
        (pos + size (cs.takeWhile isSpace) + c.utf8Size) := by
  have hend := standsAt_dropWhile isSpace h
  rw [hcs] at hend
  rw [next, Walk.bind_of_ok (skip_apply oneByte_isSpace h), Walk.bind_of_ok (Walk.get_apply _),
    Walk.bind_of_ok (advance_cons hend)]

theorem tokens_follow (h : StandsAt l.text pos cs) :
    Walk.Follows (l.tokens) pos (fun ts t us => ts = us ∧ Boundary l.text t) (Fails l)
      (Token.scanFrom pos cs) := by
  fun_induction Token.scanFrom pos cs with
  | case1 pos cs here =>
      rename_i hcs
      rw [tokens]
      refine .ok ((Walk.bind_of_ok (next_of_nil h hcs) _).trans rfl) ⟨rfl, ?_⟩
      exact (standsAt_dropWhile isSpace h).boundary
  | case2 pos cs here c rest hcs m hread =>
      have hplace := standsAt_dropWhile isSpace h
      rw [hcs] at hplace
      have htoken := token_reads hplace
      rw [hread] at htoken
      rw [tokens]
      cases htoken with
      | error hx hfails =>
          have hnext := (next_of_cons h hcs).trans (Walk.bind_of_error hx _)
          exact .error (Walk.bind_of_error hnext _) hfails
  | case3 pos cs here c rest hcs t rest' hread =>
      rename_i ih
      have hplace := standsAt_dropWhile isSpace h
      rw [hcs] at hplace
      have htoken := token_reads hplace
      rw [hread] at htoken
      obtain ⟨ds, hds, hlexeme⟩ := Token.lexeme_of_read hread
      rw [tokens]
      cases htoken with
      | @ok u p _ hx hr =>
          obtain ⟨rfl, hrest⟩ := hr
          have hnext := (next_of_cons h hcs).trans (Walk.bind_of_ok hx _)
          have hp : here + (size (c :: rest) - size rest') = p := by
            have hbefore : here + size (c :: rest) = size l.text := hplace.add_size
            have hafter : p + size rest' = size l.text := hrest.add_size
            rw [hds, ← List.cons_append, size_append] at hbefore ⊢
            omega
          rw [hp] at ih ⊢
          have hfollows : Walk.Follows (do let ts ← l.tokens; pure (⟨u, here⟩ :: ts)) p
              (fun ts t us => ts = us ∧ Boundary l.text t) (Fails l) (do
                let us ← Token.scanFrom p rest'
                .ok (⟨u, here⟩ :: us)) := by
            refine (ih hrest).bind ?_
            rintro _ q us ⟨rfl, hq⟩
            exact .ok rfl ⟨rfl, hq⟩
          refine hfollows.of_eq ((Walk.bind_of_ok hnext _).trans ?_)
          exact congrFun (if_neg hlexeme.ne_stop) p

theorem scan_follows (source : String) : Walk.Follows (tokens ⟨source.toList⟩) 0
    (fun ts t us => ts = us ∧ Boundary source.toList t) (Fails ⟨source.toList⟩) (Token.scan source) :=
  tokens_follow (l := ⟨source.toList⟩) (standsAt_zero source.toList)

theorem boundary_of_mem_scan {source : String} {ts : List Located} {t : Located}
    (hscan : Token.scan source = .ok ts) (ht : t ∈ ts) : Boundary source.toList t.offset := by
  obtain ⟨before, rest, us, htext, hoffset, -⟩ := (Token.scans_of_scanFrom hscan).scans_of_mem ht
  exact ⟨rest, before, htext, hoffset.trans (Nat.zero_add _)⟩

theorem boundary_of_parse {source : String} {limit : Nat} {m : Mistake}
    (h : Expr.parse limit source = .error m) : Boundary source.toList m.offset := by
  have hfollows := scan_follows source
  unfold Expr.parse at h
  cases hscan : Token.scan source with
  | error e =>
      rw [hscan] at h hfollows
      cases h
      cases hfollows with
      | error _ hfails => exact hfails.mistake ▸ hfails.offset
  | ok ts =>
      rw [hscan] at h
      rcases Input.offers_of_ofTokens (i := ⟨ts, limit⟩) h with ⟨t, ht, hoffset⟩ | ⟨-, hzero⟩
      · exact hoffset ▸ boundary_of_mem_scan hscan ht
      · exact hzero ▸ (standsAt_zero _).boundary

/-- The walk along the bytes of a text comes to the tokens of the text, or to the mistake in them,
with every position on its way a boundary of characters. Every lexeme of a number is a numeral, so
that none is refused, and the mistakes in the expression stand at boundaries. -/
theorem positions_valid (source : String) (limit : Nat) :
    (∃ pos, tokens ⟨source.toList⟩ 0 = some (Token.scan source, pos) ∧
      String.Pos.Raw.IsValid source ⟨pos⟩) ∧
    (∀ lexeme, Token.NumberLexeme lexeme → ∃ n, Numeral.ofText? lexeme = some n) ∧
    (∀ m, Token.scan source = .error m → m.cause ≠ .malformedNumber) ∧
    ∀ m, Expr.parse limit source = .error m →
      m.offset ≤ source.utf8ByteSize ∧ String.Pos.Raw.IsValid source ⟨m.offset⟩ := by
  have hfollows := scan_follows source
  refine ⟨?_, fun _ => Token.NumberLexeme.exists_numeral, ?_, ?_⟩
  · generalize Token.scan source = o at hfollows
    cases hfollows with
    | ok hx hp => exact ⟨_, hp.1 ▸ hx, isValid_iff_boundary.2 hp.2⟩
    | error hx hfails => exact ⟨_, hfails.mistake ▸ hx, isValid_iff_boundary.2 hfails.place⟩
  · intro m hm
    rw [hm] at hfollows
    cases hfollows with
    | error _ hfails => exact hfails.mistake ▸ hfails.cause
  · intro m hm
    have hboundary := boundary_of_parse hm
    exact ⟨hboundary.le_utf8ByteSize, isValid_iff_boundary.2 hboundary⟩

theorem positions_valid_of_split_escape :
    (∃ pos, tokens ⟨"'\\u00aé'".toList⟩ 0 = some (.error ⟨.badEscape, 1⟩, pos) ∧
      String.Pos.Raw.IsValid "'\\u00aé'" ⟨pos⟩) ∧
    (∃ n, Numeral.ofText? ['1', 'e', '5'] = some n) ∧
    Mistake.Cause.badEscape ≠ .malformedNumber ∧
    1 ≤ "'\\u00aé'".utf8ByteSize ∧ String.Pos.Raw.IsValid "'\\u00aé'" ⟨1⟩ := by
  obtain ⟨htokens, hnumerals, hcause, hmistakes⟩ := positions_valid "'\\u00aé'" 8
  have hscan : Token.scan "'\\u00aé'" = .error ⟨.badEscape, 1⟩ := by with_unfolding_all rfl
  have hparse : Expr.parse 8 "'\\u00aé'" = .error ⟨.badEscape, 1⟩ := by
    rw [Expr.parse, hscan]
    rfl
  have hlexeme : Token.NumberLexeme ['1', 'e', '5'] :=
    @Token.NumberLexeme.mk '1' ['e', '5'] ['e'] ['5'] [] rfl rfl (by simp)
  rw [hscan] at htokens
  exact ⟨htokens, hnumerals _ hlexeme, hcause _ hscan, hmistakes _ hparse⟩

end TemplateExpr.Scanner
