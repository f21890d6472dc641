import Mathlib.Data.List.Nodup
import Mathlib.Data.String.Basic
import TemplateExpr.Proofs.Token.Lexeme

namespace TemplateExpr.Token

-- A run of the scanner, with what each token was read from.
inductive Scans : Nat → List Char → List Located → Prop
  | stop {offset ws} : (∀ c ∈ ws, Text.isSpace c = true) →
      Scans offset ws [⟨.stop, offset + Text.size ws⟩]
  | token {offset ws c ds rest t ts} : (∀ c ∈ ws, Text.isSpace c = true) → Text.isSpace c = false →
      Lexeme t (c :: ds) → read (offset + Text.size ws) c (ds ++ rest) = .ok (t, rest) →
      Scans (offset + Text.size ws + Text.size (c :: ds)) rest ts →
      Scans offset (ws ++ (c :: ds ++ rest)) (⟨t, offset + Text.size ws⟩ :: ts)

theorem scans_of_scanFrom {offset : Nat} {cs : List Char} {ts : List Located}
    (h : scanFrom offset cs = .ok ts) : Scans offset cs ts := by
  have hspaces (cs : List Char) : ∀ c ∈ cs.takeWhile Text.isSpace, Text.isSpace c = true :=
    List.all_eq_true.1 List.all_takeWhile
  fun_induction scanFrom offset cs generalizing ts with
  | case1 offset cs here =>
      rename_i hcs
      cases h
      have hws := List.takeWhile_append_dropWhile (p := Text.isSpace) (l := cs)
      rw [hcs, List.append_nil] at hws
      have hstop : Scans offset _ _ := .stop (hspaces cs)
      rw [hws] at hstop
      change Scans offset cs [⟨.stop, offset + Text.size (cs.takeWhile Text.isSpace)⟩]
      rwa [hws]
  | case2 => cases h
  | case3 offset cs here c rest hcs t rest' hread =>
      rename_i ih
      obtain ⟨us, hus, he⟩ := bind_eq_ok.1 h
      cases he
      obtain ⟨ds, rfl, hl⟩ := lexeme_of_read hread
      have hspace : Text.isSpace c = false := by
        have hhead := List.head?_dropWhile_not Text.isSpace cs
        rwa [hcs] at hhead
      have hsize : Text.size (c :: (ds ++ rest')) - Text.size rest' = Text.size (c :: ds) := by
        simp only [Text.size_cons, Text.size_append]
        omega
      rw [hsize] at ih hus
      have htoken := Scans.token (hspaces cs) hspace hl hread (ih hus)
      have hws := List.takeWhile_append_dropWhile (p := Text.isSpace) (l := cs)
      rw [hcs] at hws
      rwa [List.cons_append, hws] at htoken

theorem Scans.scanFrom_eq_ok {offset : Nat} {cs : List Char} {ts : List Located}
    (h : Scans offset cs ts) : scanFrom offset cs = .ok ts := by
  induction h with
  | @stop offset ws hws =>
      have hskip := scanFrom_append_of_isSpace hws offset []
      rw [List.append_nil] at hskip
      exact hskip.trans (scanFrom_eq _ [])
  | token hws hspace _ hread _ ih => exact scanFrom_of_read hws hspace hread ih

theorem Scans.scans_of_mem {offset : Nat} {cs : List Char} {ts : List Located}
    (h : Scans offset cs ts) {t : Located} (ht : t ∈ ts) :
    ∃ pre rest us, cs = pre ++ rest ∧ t.offset = offset + Text.size pre ∧
      Scans t.offset rest (t :: us) := by
  induction h with
  | @stop offset ws hws =>
      cases List.mem_singleton.1 ht
      exact ⟨ws, [], [], (List.append_nil ws).symm, rfl, .stop (List.forall_mem_nil _)⟩
  | @token offset ws c ds rest u us hws hspace hl hread hscans ih =>
      rcases List.mem_cons.1 ht with rfl | ht
      · have hself : Scans (offset + Text.size ws) ([] ++ (c :: ds ++ rest)) (_ :: us) :=
          .token (List.forall_mem_nil _) hspace hl hread hscans
        exact ⟨ws, _, us, rfl, rfl, hself⟩
      · obtain ⟨pre, after, vs, rfl, hoffset, hscans⟩ := ih ht
        refine ⟨ws ++ (c :: ds ++ pre), after, vs, by simp, ?_, hscans⟩
        rw [hoffset, Text.size_append, Text.size_append]
        omega

theorem scanFrom_lexeme {t : Token} {cs : List Char} (h : Lexeme t cs) (offset : Nat) :
    scanFrom offset cs = .ok [⟨t, offset⟩, ⟨.stop, offset + Text.size cs⟩] := by
  obtain ⟨c, ds, rfl, hspace, hread⟩ := read_lexeme h
  have hread := hread offset [] (ends_nil t)
  have hstop : scanFrom (offset + Text.size (c :: ds)) [] =
      .ok [⟨.stop, offset + Text.size (c :: ds)⟩] := scanFrom_eq _ []
  have hscan := scanFrom_of_read (List.forall_mem_nil _) hspace hread hstop
  rwa [List.append_nil] at hscan

theorem lexeme_of_scanFrom {offset : Nat} {cs : List Char} {u stop : Located}
    (hfirst : ∀ c ∈ cs.head?, Text.isSpace c = false)
    (hlast : ∀ c ∈ cs.getLast?, Text.isSpace c = false)
    (h : scanFrom offset cs = .ok [u, stop]) : Lexeme u.token cs := by
  cases scans_of_scanFrom h with
  | @token _ ws c ds rest t _ hws _ hl _ hscans =>
      have hrest : rest = [] := by
        cases hscans with
        | stop hspaces =>
            refine List.eq_nil_iff_forall_not_mem.2 fun d hd => ?_
            have hne := List.ne_nil_of_mem hd
            have hmem : rest.getLast hne ∈ (ws ++ (c :: ds ++ rest)).getLast? := by
              rw [List.getLast?_append_of_ne_nil _ (by simp), List.getLast?_append_of_ne_nil _ hne,
                List.getLast?_eq_some_getLast hne]
              rfl
            exact absurd (hspaces _ (List.getLast_mem hne)) (by simp [hlast _ hmem])
        | token _ _ _ _ hnil => cases hnil
      have hnil : ws = [] := by
        cases ws with
        | nil => rfl
        | cons w ws =>
            exact absurd (hws w List.mem_cons_self) (by simp [hfirst w rfl])
      rwa [hrest, hnil, List.nil_append, List.append_nil]

structure Cuts (t : Token) (lexeme rest : List Char) : Prop where
  ne_nil : lexeme ≠ []
  ne_stop : t ≠ .stop
  alone : scan (String.ofList lexeme) = .ok [⟨t, 0⟩, ⟨.stop, Text.size lexeme⟩]
  longest : ∀ more, more ≠ [] → more <+: rest → (∀ c ∈ more.getLast?, Text.isSpace c = false) →
    ∀ u stop, scan (String.ofList (lexeme ++ more)) ≠ .ok [u, stop]
  name : ∀ s, t = .name s → lexeme = s.toList ∧ IsName s

inductive Tiles : Nat → List Char → List Located → Prop
  | stop {offset ws} : (∀ c ∈ ws, Text.isSpace c = true) →
      Tiles offset ws [⟨.stop, offset + Text.size ws⟩]
  | token {offset ws lexeme rest t ts} : (∀ c ∈ ws, Text.isSpace c = true) → Cuts t lexeme rest →
      Tiles (offset + Text.size ws + Text.size lexeme) rest ts →
      Tiles offset (ws ++ (lexeme ++ rest)) (⟨t, offset + Text.size ws⟩ :: ts)

theorem Lexeme.cuts {offset : Nat} {c : Char} {ds rest : List Char} {t : Token}
    (hspace : Text.isSpace c = false) (hl : Lexeme t (c :: ds))
    (hread : read offset c (ds ++ rest) = .ok (t, rest)) : Cuts t (c :: ds) rest where
  ne_nil := List.cons_ne_nil c ds
  ne_stop := hl.ne_stop
  alone := by rw [scan, String.toList_ofList, scanFrom_lexeme hl, Nat.zero_add]
  longest := by
    rintro more hne ⟨q, rfl⟩ hlast u stop h
    rw [scan, String.toList_ofList] at h
    have hlast : ∀ d ∈ (c :: ds ++ more).getLast?, Text.isSpace d = false := by
      rw [List.getLast?_append_of_ne_nil _ hne]
      exact hlast
    have hmore : Lexeme u.token (c :: (ds ++ more)) :=
      lexeme_of_scanFrom (by simpa using hspace) hlast h
    rw [← List.append_assoc] at hread
    have hle := hmore.length_le hread
    rw [List.length_append] at hle
    have := List.length_pos_iff.2 hne
    omega
  name := by
    rintro s rfl
    exact hl.eq_name

theorem Scans.tiles {offset : Nat} {cs : List Char} {ts : List Located} (h : Scans offset cs ts) :
    Tiles offset cs ts := by
  induction h with
  | stop hws => exact .stop hws
  | token hws hspace hl hread _ ih => exact .token hws (hl.cuts hspace hread) ih

theorem Tiles.offsets {offset : Nat} {cs : List Char} {ts : List Located} (h : Tiles offset cs ts) :
    (∀ t ∈ ts, offset ≤ t.offset) ∧ ts.Pairwise (·.offset < ·.offset) := by
  induction h with
  | stop => exact ⟨by simp, List.pairwise_singleton _ _⟩
  | @token offset ws lexeme rest t ts hws hcuts _ ih =>
      have hpos := Text.size_pos hcuts.ne_nil
      refine ⟨?_, List.pairwise_cons.2 ⟨?_, ih.2⟩⟩
      · intro u hu
        rcases List.mem_cons.1 hu with rfl | hu
        · exact Nat.le_add_right _ _
        · have := ih.1 u hu
          omega
      · intro u hu
        have := ih.1 u hu
        dsimp only
        omega

theorem Tiles.eq_of_offset_eq {offset : Nat} {cs : List Char} {ts : List Located}
    (h : Tiles offset cs ts) {t u : Located} (ht : t ∈ ts) (hu : u ∈ ts)
    (he : t.offset = u.offset) : t = u := by
  have hnodup : (ts.map Located.offset).Nodup :=
    List.pairwise_map.2 (h.offsets.2.imp fun hlt => Nat.ne_of_lt hlt)
  exact List.inj_on_of_nodup_map hnodup ht hu he

theorem Tiles.eq_append_stop {offset : Nat} {cs : List Char} {ts : List Located}
    (h : Tiles offset cs ts) :
    ∃ us, ts = us ++ [⟨.stop, offset + Text.size cs⟩] ∧ ∀ t ∈ us, t.token ≠ .stop := by
  induction h with
  | stop => exact ⟨[], rfl, by simp⟩
  | @token offset ws lexeme rest t ts hws hcuts _ ih =>
      obtain ⟨us, rfl, hus⟩ := ih
      refine ⟨⟨t, offset + Text.size ws⟩ :: us, ?_, List.forall_mem_cons.2 ⟨hcuts.ne_stop, hus⟩⟩
      simp only [Text.size_append, Nat.add_assoc, List.cons_append]

theorem size_toList (s : String) : Text.size s.toList = s.utf8ByteSize := by
  have hsize (cs : List Char) : Text.size cs = String.utf8Len cs := by
    induction cs with
    | nil => rfl
    | cons c cs ih => rw [Text.size_cons, ih, String.utf8Len_cons, Nat.add_comm]
  rw [hsize, ← String.utf8ByteSize_ofList, String.ofList_toList]

theorem tiles_of_scan {source : String} {ts : List Located} (h : scan source = .ok ts) :
    ts.Pairwise (·.offset < ·.offset) ∧
      (∃ us, ts = us ++ [⟨.stop, source.utf8ByteSize⟩] ∧ ∀ t ∈ us, t.token ≠ .stop) ∧
      Tiles 0 source.toList ts := by
  have htiles := (scans_of_scanFrom h).tiles
  obtain ⟨us, hts, hus⟩ := htiles.eq_append_stop
  rw [Nat.zero_add, size_toList] at hts
  exact ⟨htiles.offsets.2, ⟨us, hts, hus⟩, htiles⟩

theorem tiles_of_scan_of_comparison :
    scan "ab<= 'c d' " =
        .ok [⟨.name "ab", 0⟩, ⟨.symbol .lessEqual, 2⟩, ⟨.text "c d", 5⟩, ⟨.stop, 11⟩] ∧
      Tiles 0 "ab<= 'c d' ".toList
        [⟨.name "ab", 0⟩, ⟨.symbol .lessEqual, 2⟩, ⟨.text "c d", 5⟩, ⟨.stop, 11⟩] := by
  have hscan : scan "ab<= 'c d' " =
      .ok [⟨.name "ab", 0⟩, ⟨.symbol .lessEqual, 2⟩, ⟨.text "c d", 5⟩, ⟨.stop, 11⟩] := by
    with_unfolding_all rfl
  exact ⟨hscan, (tiles_of_scan hscan).2.2⟩

end TemplateExpr.Token
