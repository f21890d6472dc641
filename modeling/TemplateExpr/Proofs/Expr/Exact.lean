import Mathlib.Order.Compare
import TemplateExpr.Proofs.Expr.Nodes
import TemplateExpr.Proofs.Host.Check
import TemplateExpr.Proofs.Token.Numeral
import TemplateExpr.Proofs.Value.Normal

namespace TemplateExpr

def BinaryOp.onIntegers? : BinaryOp → Option (Int → Int → Int)
  | .add => some (· + ·)
  | .sub => some (· - ·)
  | .mul => some (· * ·)
  | _ => none

def BinaryOp.relation? : BinaryOp → Option (Int → Int → Bool)
  | .strictEq => some fun m n => decide (m = n)
  | .strictNe => some fun m n => decide (m ≠ n)
  | .lt => some fun m n => decide (m < n)
  | .le => some fun m n => decide (m ≤ n)
  | .gt => some fun m n => decide (m > n)
  | .ge => some fun m n => decide (m ≥ n)
  | _ => none

namespace BinaryOp

variable {op : BinaryOp} {m n : Int}

theorem apply_integers {f : Int → Int → Int} (hf : op.onIntegers? = some f)
    (hm : m.natAbs < Nat.pow 2 53) (hn : n.natAbs < Nat.pow 2 53)
    (h : (f m n).natAbs < Nat.pow 2 53) :
    op.apply (.integer m) (.integer n) = .integer (f m n) := by
  have hm := Double.isInt_ofInt hm
  have hn := Double.isInt_ofInt hn
  have hdoubles {g : Double → Double → Double} (hg : op.onDoubles? = some g) :
      op.apply (.integer m) (.integer n) = .ofDouble (g (.ofInt m) (.ofInt n)) :=
    apply_of_onDoubles? hg fun _ => ⟨rfl, rfl⟩
  cases op with
  | add =>
      cases hf
      rw [hdoubles rfl, Value.ofDouble_of_isInt (hm.add hn h) h]
  | sub =>
      cases hf
      rw [hdoubles rfl, Value.ofDouble_of_isInt (hm.sub hn h) h]
  | mul =>
      cases hf
      rw [hdoubles rfl, Value.ofDouble_of_isInt (hm.mul hn h) h]
  | _ => cases hf

theorem compare_int (m n : Int) :
    (some (compare m n) == some .eq) = decide (m = n) ∧
      (compare m n).isLT = decide (m < n) ∧ (compare m n).isLE = decide (m ≤ n) ∧
      (compare m n).isGT = decide (m > n) ∧ (compare m n).isGE = decide (m ≥ n) := by
  rcases Int.lt_trichotomy m n with h | rfl | h
  · simp [compare_lt_iff_lt.2 h, h, Int.ne_of_lt, Int.le_of_lt]
  · simp
  · simp [compare_gt_iff_gt.2 h, h, Int.ne_of_gt, Int.le_of_lt]

theorem apply_relation {r : Int → Int → Bool} (hr : op.relation? = some r)
    (hm : m.natAbs < Nat.pow 2 53) (hn : n.natAbs < Nat.pow 2 53) :
    op.apply (.integer m) (.integer n) = .boolean (r m n) := by
  have hdouble : (Double.ofInt m).compare? (.ofInt n) = some (compare m n) :=
    (Double.isInt_ofInt hm).compare? (Double.isInt_ofInt hn)
  have hcompare : (Value.integer m).compare? (.integer n) = some (compare m n) := hdouble
  have hequal : (Value.integer m).strictEq (.integer n) = (some (compare m n) == some .eq) := by
    rw [← hdouble]
    rfl
  obtain ⟨heq, hlt, hle, hgt, hge⟩ := compare_int m n
  cases op with
  | strictEq => cases hr; rw [apply, hequal, heq]
  | strictNe => cases hr; rw [apply, hequal, heq, ← decide_not]
  | lt => cases hr; rw [apply, Value.lt, hcompare, Option.any_some, hlt]
  | le => cases hr; rw [apply, Value.le, hcompare, Option.any_some, hle]
  | gt => cases hr; rw [apply, Value.gt, hcompare, Option.any_some, hgt]
  | ge => cases hr; rw [apply, Value.ge, hcompare, Option.any_some, hge]
  | _ => cases hr

end BinaryOp

theorem UnaryOp.apply_neg_integer {n : Int} (hn : n.natAbs < Nat.pow 2 53) :
    UnaryOp.neg.apply (.integer n) = .integer (-n) := by
  have h : (-n).natAbs < Nat.pow 2 53 := by rwa [Int.natAbs_neg]
  have hdouble : UnaryOp.neg.apply (.integer n) = .ofDouble (Double.ofInt n).neg := rfl
  rw [hdouble, Value.ofDouble_of_isInt (Double.isInt_ofInt hn).neg h]

namespace Expr

variable (source : String) (scope : Scope)

def integer? : Expr → Option Int
  | .literal o _ => (Token.numeralAt? source o).bind Numeral.integer?
  | .name _ s => match scope.resolve s with
      | .value (.json (.number (.integer n))) => some n
      | _ => none
  | .unary _ .neg e => e.integer?.map fun n => -n
  | .binary _ op l r => match op.onIntegers?, l.integer?, r.integer? with
      | some f, some m, some n => some (f m n)
      | _, _, _ => none
  | _ => none

def Bounded (e : Expr) : Prop :=
  ∀ y ∈ e.nodes, ∀ n ∈ y.integer? source scope, n.natAbs < Nat.pow 2 53

-- The literals of an expression are the numerals of the text, where these are small enough.
def Faithful (e : Expr) : Prop :=
  ∀ o l, .literal o l ∈ e.nodes → ∀ n, (literal o l).integer? source scope = some n →
    n.natAbs < Nat.pow 2 53 → l = .number (.integer n)

variable {source scope} {o : Nat} {x y : Expr}

theorem left_nodes_subset {op : BinaryOp} {l r : Expr} : l.nodes ⊆ (binary o op l r).nodes :=
  List.subset_cons_of_subset _ (List.subset_append_left _ _)

theorem right_nodes_subset {op : BinaryOp} {l r : Expr} : r.nodes ⊆ (binary o op l r).nodes :=
  List.subset_cons_of_subset _ (List.subset_append_right _ _)

theorem Bounded.self (h : x.Bounded source scope) {n : Int} (hn : x.integer? source scope = some n) :
    n.natAbs < Nat.pow 2 53 :=
  h x (self_mem_nodes x) n hn

theorem Bounded.mono (h : x.Bounded source scope) (hy : y.nodes ⊆ x.nodes) :
    y.Bounded source scope :=
  fun z hz => h z (hy hz)

theorem Faithful.mono (h : x.Faithful source scope) (hy : y.nodes ⊆ x.nodes) :
    y.Faithful source scope :=
  fun o l hl => h o l (hy hl)

theorem faithful_of_parse {limit : Nat} (hx : Expr.parse limit source = .ok x) :
    x.Faithful source scope := by
  intro o l hl n hn hsmall
  obtain ⟨numeral, hnumeral, hinteger⟩ := Option.bind_eq_some_iff.1 hn
  obtain ⟨ts, hts, -, hliterals⟩ := leaves_of_parse hx
  obtain ⟨t, ht, hlit⟩ := hliterals o l hl
  cases Token.number_of_numeralAt? hts ht hnumeral
  cases hlit
  exact Literal.ofDouble_of_isInt (Numeral.isInt_toDouble hinteger hsmall) hsmall

theorem integer?_binary {op : BinaryOp} {l r : Expr} {n : Int}
    (h : (binary o op l r).integer? source scope = some n) :
    ∃ f m k, op.onIntegers? = some f ∧ l.integer? source scope = some m ∧
      r.integer? source scope = some k ∧ n = f m k := by
  rw [integer?] at h
  split at h
  · rename_i f m k hf hm hk
    cases h
    exact ⟨f, m, k, hf, hm, hk, rfl⟩
  · cases h

variable {σ : Type} (host : Host σ)

variable {host} in
theorem evaluate_binary {op : BinaryOp} {l r : Expr} {a b : Value} {s : σ}
    (hl : l.evaluate host scope s = (.ok a, s)) (hr : r.evaluate host scope s = (.ok b, s)) :
    (binary o op l r).evaluate host scope s = (.ok (op.apply a b), s) := by
  rw [evaluate, Run.bind_apply, hl]
  dsimp only
  rw [Run.bind_apply, hr]
  rfl

theorem evaluate_of_integer? {n : Int} (hx : x.integer? source scope = some n)
    (hfaithful : x.Faithful source scope) (hbounded : x.Bounded source scope) (s : σ) :
    x.evaluate host scope s = (.ok (.integer n), s) := by
  induction x generalizing n with
  | literal o l =>
      rw [hfaithful o l (self_mem_nodes _) n hx (hbounded.self hx)]
      rfl
  | name o v =>
      rw [integer?] at hx
      split at hx
      · rename_i hv
        cases hx
        rw [evaluate, hv]
        rfl
      · cases hx
  | unary o op e ih =>
      cases op with
      | not => cases hx
      | neg =>
          obtain ⟨m, hm, rfl⟩ := Option.map_eq_some_iff.1 hx
          have hsub : e.nodes ⊆ (unary o .neg e).nodes := List.subset_cons_self _ _
          have he := ih hm (hfaithful.mono hsub) (hbounded.mono hsub)
          rw [evaluate, Run.bind_apply, he]
          exact congrArg (fun v => (Except.ok v, s))
            (UnaryOp.apply_neg_integer ((hbounded.mono hsub).self hm))
  | binary o op l r ihl ihr =>
      obtain ⟨f, m, k, hf, hm, hk, rfl⟩ := integer?_binary hx
      have hl := hbounded.mono left_nodes_subset
      have hr := hbounded.mono right_nodes_subset
      have hleft := ihl hm (hfaithful.mono left_nodes_subset) hl
      have hright := ihr hk (hfaithful.mono right_nodes_subset) hr
      rw [evaluate_binary hleft hright,
        BinaryOp.apply_integers hf (hl.self hm) (hr.self hk) (hbounded.self hx)]
  | _ => cases hx

theorem evaluate_relation {op : BinaryOp} {l r : Expr} {relation : Int → Int → Bool} {m n : Int}
    (hop : op.relation? = some relation) (hm : l.integer? source scope = some m)
    (hn : r.integer? source scope = some n) (hfaithful : (binary o op l r).Faithful source scope)
    (hl : l.Bounded source scope) (hr : r.Bounded source scope) (s : σ) :
    (binary o op l r).evaluate host scope s = (.ok (.boolean (relation m n)), s) := by
  have hleft := evaluate_of_integer? host hm (hfaithful.mono left_nodes_subset) hl s
  have hright := evaluate_of_integer? host hn (hfaithful.mono right_nodes_subset) hr s
  rw [evaluate_binary hleft hright, BinaryOp.apply_relation hop (hl.self hm) (hr.self hn)]

end Expr

theorem Evaluator.evaluate_exact {σ : Type} (e : Evaluator) (host : Host σ) {source : String}
    {x : Expr} (hx : Expr.parse e.maxDepth source = .ok x) (data : Bindings) (receiver : Value)
    {s : σ} (hs : (host.isolatedScope s).1 = .json (.object [])) :
    let scope : Scope := ⟨data, receiver, e.deny⟩
    (∀ n, x.integer? source scope = some n → x.Bounded source scope →
        e.evaluate host source data receiver s = (.ok (.integer n), (host.isolatedScope s).2)) ∧
      ∀ o op l r relation m n, x = .binary o op l r → op.relation? = some relation →
        l.integer? source scope = some m → r.integer? source scope = some n →
        l.Bounded source scope → r.Bounded source scope →
        e.evaluate host source data receiver s =
          (.ok (.boolean (relation m n)), (host.isolatedScope s).2) := by
  intro scope
  have hfaithful : x.Faithful source scope := Expr.faithful_of_parse hx
  rw [evaluate_of_parse data receiver hx hs]
  refine ⟨fun n hn hbounded => Expr.evaluate_of_integer? host hn hfaithful hbounded _, ?_⟩
  rintro o op l r relation m n rfl hop hm hn hl hr
  exact Expr.evaluate_relation host hop hm hn hfaithful hl hr _

theorem Evaluator.evaluate_exact_of_product :
    let data : Bindings := ⟨[("a", .integer 5)], []⟩
    let scope : Scope := ⟨data, .undefined, {}⟩
    ∃ x, Expr.parse 8 "2*-a" = .ok x ∧ x.integer? "2*-a" scope = some (-10) ∧
      x.Bounded "2*-a" scope ∧
      (⟨{}, 8⟩ : Evaluator).evaluate Host.isolated "2*-a" data .undefined () =
        (.ok (.integer (-10)), ()) := by
  intro data scope
  let two : Numeral := ⟨false, ⟨2, 0⟩⟩
  have htwo : two.integer? = some 2 := by with_unfolding_all rfl
  have hlit : Literal.ofDouble two.toDouble = .number (.integer 2) :=
    Literal.ofDouble_of_isInt (Numeral.isInt_toDouble htwo (by decide)) (by decide)
  have hdigit : ∀ d ∈ ['2'], d.isDigit = true := List.forall_mem_singleton.2 rfl
  have hnumber : Token.readNumber 0 (['2'] ++ ([] ++ ['*', '-', 'a'])) =
      .ok (.number two.toDouble, ['*', '-', 'a']) :=
    Token.readNumber_of_isMantissa (.whole hdigit) .absent rfl rfl (by simp)
  have hread : Token.read 0 '2' ['*', '-', 'a'] = .ok (.number two.toDouble, ['*', '-', 'a']) :=
    hnumber
  have hrest : Token.scanFrom 1 ['*', '-', 'a'] =
      .ok [⟨.symbol .star, 1⟩, ⟨.symbol .minus, 2⟩, ⟨.name "a", 3⟩, ⟨.stop, 4⟩] := by
    with_unfolding_all rfl
  have hscan : Token.scanFrom 0 ([] ++ ('2' :: [] ++ ['*', '-', 'a'])) =
      .ok (⟨.number two.toDouble, 0⟩ ::
        [⟨.symbol .star, 1⟩, ⟨.symbol .minus, 2⟩, ⟨.name "a", 3⟩, ⟨.stop, 4⟩]) :=
    Token.scanFrom_of_read (List.forall_mem_nil _) rfl hread hrest
  have hx : Expr.parse 8 "2*-a" = .ok (.binary 0 .mul (.literal 0 (.number (.integer 2)))
      (.unary 2 .neg (.name 3 "a"))) := by
    change (Token.scanFrom 0 ([] ++ ('2' :: [] ++ ['*', '-', 'a'])) >>= Expr.ofTokens 8) = _
    rw [hscan, ← hlit]
    rfl
  have htwo : (Expr.literal 0 (.number (.integer 2))).integer? "2*-a" scope = some 2 := by
    with_unfolding_all rfl
  have hfive : (Expr.name 3 "a").integer? "2*-a" scope = some 5 := rfl
  have hneg : (Expr.unary 2 .neg (.name 3 "a")).integer? "2*-a" scope = some (-5) := by
    rw [Expr.integer?, hfive]
    rfl
  have hproduct : (Expr.binary 0 .mul (.literal 0 (.number (.integer 2)))
      (.unary 2 .neg (.name 3 "a"))).integer? "2*-a" scope = some (-10) := by
    rw [Expr.integer?, htwo, hneg]
    rfl
  have hbounded : (Expr.binary 0 .mul (.literal 0 (.number (.integer 2)))
      (.unary 2 .neg (.name 3 "a"))).Bounded "2*-a" scope := by
    intro y hy n hn
    simp only [Expr.nodes, List.cons_append, List.nil_append, List.mem_cons, List.not_mem_nil,
      or_false] at hy
    rcases hy with rfl | rfl | rfl | rfl
    · cases hproduct.symm.trans hn; decide
    · cases htwo.symm.trans hn; decide
    · cases hneg.symm.trans hn; decide
    · cases hfive.symm.trans hn; decide
  exact ⟨_, hx, hproduct, hbounded,
    (evaluate_exact ⟨{}, 8⟩ Host.isolated hx data .undefined rfl).1 _ hproduct hbounded⟩

end TemplateExpr
