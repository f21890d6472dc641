import TemplateExpr.Proofs.Decimal.Layout
import TemplateExpr.Proofs.Decimal.Shortest
import TemplateExpr.Proofs.Double.Integer
import TemplateExpr.Proofs.Double.Order
import TemplateExpr.Proofs.Value.Coercion

namespace TemplateExpr

namespace Numeral

def isNumeric (c : Char) : Bool :=
  c.isDigit || "+-.eE".toList.contains c

variable {negative : Bool} {c : Char} {d : Decimal} {n : Numeral} {e : ℤ} {s ds m p cs : List Char}

theorem IsDigits.all_isNumeric (h : IsDigits ds) : ds.all isNumeric = true :=
  List.all_eq_true.2 fun c hc => by rw [isNumeric, h.2 c hc, Bool.true_or]

theorem IsSign.all_isNumeric (h : IsSign negative s) : s.all isNumeric = true := by
  cases h <;> decide

theorem IsSignificand.all_isNumeric (h : IsSignificand d m) : m.all isNumeric = true := by
  have hpoint : isNumeric '.' = true := by decide
  cases h with
  | whole hds => exact IsDigits.all_isNumeric hds
  | pointed hds hfs =>
      have hds := IsDigits.all_isNumeric hds
      rcases hfs with rfl | hfs
      · simp [hds, hpoint]
      · simp [hds, hpoint, IsDigits.all_isNumeric hfs]
  | fraction hfs => simp [hpoint, IsDigits.all_isNumeric hfs]

theorem IsExponent.all_isNumeric (h : IsExponent e p) : p.all isNumeric = true := by
  cases h with
  | absent => rfl
  | present he hs hds =>
      have hmark : isNumeric 'e' = true ∧ isNumeric 'E' = true := by decide
      rcases he with rfl | rfl
      · simp [hmark, hs.all_isNumeric, IsDigits.all_isNumeric hds]
      · simp [hmark, hs.all_isNumeric, IsDigits.all_isNumeric hds]

theorem Written.all_isNumeric (h : Written n cs) : cs.all isNumeric = true := by
  obtain ⟨hs, hm, hp⟩ := h
  simp [hs.all_isNumeric, hm.all_isNumeric, hp.all_isNumeric]

theorem not_isBlank_of_isNumeric (h : isNumeric c = true) : ¬ Text.isBlank c = true := by
  rw [isNumeric, Bool.or_eq_true, List.contains_iff_mem] at h
  rcases h with hdigit | hmark
  · obtain ⟨hlower, hupper⟩ : 48 ≤ c.toNat ∧ c.toNat ≤ 57 := Char.isDigit_iff_toNat.1 hdigit
    intro hblank
    simp only [Text.isBlank, Text.blankRanges, List.any_eq_true, List.mem_cons, List.not_mem_nil,
      or_false, decide_eq_true_eq] at hblank
    grind
  · have hmarks : "+-.eE".toList.all (fun c => !Text.isBlank c) = true := by decide
    simpa using List.all_eq_true.1 hmarks c hmark

end Numeral

namespace Text

open Numeral

variable {n : Numeral} {cs : List Char}

theorem dropWhile_of_isNumeric (h : cs.all isNumeric = true) : cs.dropWhile isBlank = cs := by
  cases cs with
  | nil => rfl
  | cons c cs =>
      exact List.dropWhile_cons_of_neg
        (not_isBlank_of_isNumeric (List.all_eq_true.1 h c List.mem_cons_self))

theorem trim_of_isNumeric (h : cs.all isNumeric = true) : trim cs = cs := by
  have hreverse : cs.reverse.all isNumeric = true := by rwa [List.all_reverse]
  rw [trim, trimEnd, dropWhile_of_isNumeric h, dropWhile_of_isNumeric hreverse,
    List.reverse_reverse]

theorem toDouble_of_written (h : Written n cs) : toDouble (String.ofList cs) = n.toDouble := by
  have htrim : trim (String.ofList cs).toList = cs := by
    rw [String.toList_ofList, trim_of_isNumeric h.all_isNumeric]
  have hplain (negative : Bool) : ¬ SignedInfinity negative cs := by
    rintro ⟨s, w, rfl, -, hs, hname, -⟩
    exact hname.not_written hs h
  have hdenotes := denotes_toDouble (t := String.ofList cs) (by rwa [htrim])
  rw [htrim] at hdenotes
  rw [hdenotes.unique (.numeral h), Numeral.toDouble, Decimal.toDouble_eq_ofRatio]

end Text

namespace Decimal

open Numeral

variable {x : Double.Finite}

-- The digits of a decimal are the fewest that are read as the magnitude of a double, and no digits
-- in the same places are nearer to it.
structure IsShortest (d : Decimal) (x : Double.Finite) : Prop where
  reads_back : d.toDouble false = .finite x.abs
  isReduced : IsReduced d.digits
  fewest : ∀ d' : Decimal, d'.toDouble false = .finite x.abs → d.digits.length ≤ d'.digits.length
  nearest : ∀ c, (⟨c, d.exponent⟩ : Decimal).toDouble false = .finite x.abs →
    d.distance x ≤ (⟨c, d.exponent⟩ : Decimal).distance x

theorem isShortest_shortest (hx : x.units ≠ 0) : (shortest x).IsShortest x where
  reads_back := toDouble_eq_finite.2 ⟨rfl, units_shortest x⟩
  isReduced := isReduced_toDigits (not_ten_dvd_shortest hx)
  fewest _ h := length_digits_shortest_le hx (toDouble_eq_finite.1 h).2
  nearest _ h := distance_shortest_le hx (toDouble_eq_finite.1 h).2

theorem exists_isSign_withSign (negative : Bool) :
    ∃ s, IsSign negative s ∧ ∀ cs, withSign negative cs = s ++ cs := by
  cases negative with
  | false => exact ⟨_, .absent, fun _ => rfl⟩
  | true => exact ⟨_, .minus, fun _ => rfl⟩

end Decimal

namespace Double

open Numeral Decimal

variable {x y : Finite}

theorem Finite.decide_signedUnits_lt (hx : x.units ≠ 0) :
    decide (x.signedUnits < 0) = x.negative := by
  unfold Finite.signedUnits
  cases x.negative with
  | false => simp
  | true => simpa using Nat.pos_of_ne_zero hx

-- The text of a double is that of a decimal: a sign, if it is negative, and the digits of the
-- decimal laid out around its point, which make the numeral `n`.
structure Finite.IsPrinted (x : Finite) (d : Decimal) (m : List Char) (n : Numeral) : Prop where
  text_eq : x.text = withSign (decide (x.signedUnits < 0)) m
  laid : Laid d.digits d.point m
  canonical : Canonical d.value (d.point - 1) m
  first : 10 ^ (d.point - 1) ≤ d.value ∧ d.value < 10 ^ d.point
  written : Written n x.text
  sign_eq : n.negative = decide (x.signedUnits < 0)
  value_eq : n.magnitude.value = d.value
  read : Text.toDouble (String.ofList x.text) = .finite x

theorem Finite.text_of_units_eq_zero (hx : x.units = 0) : x.text = ['0'] :=
  if_pos hx

theorem Finite.text_of_units_ne_zero (hx : x.units ≠ 0) :
    x.text = withSign x.negative (shortest x).text :=
  if_neg hx

theorem Finite.written_text (hx : x.units ≠ 0) :
    ∃ n, Written n x.text ∧ n.negative = x.negative ∧ n.magnitude.value = (shortest x).value := by
  obtain ⟨s, hs, hsign⟩ := exists_isSign_withSign x.negative
  rw [Finite.text_of_units_ne_zero hx, hsign]
  exact (canonical_text (not_ten_dvd_shortest hx)).written hs

theorem Finite.toDouble_text (hx : x.units ≠ 0) :
    Text.toDouble (String.ofList x.text) = .finite x := by
  obtain ⟨n, hwritten, hnegative, hvalue⟩ := Finite.written_text hx
  rw [Text.toDouble_of_written hwritten, Numeral.toDouble, toDouble_eq_finite, hnegative]
  exact ⟨rfl, (units_congr hvalue).trans (units_shortest x)⟩

theorem Finite.same_toDouble_text (x : Finite) :
    same (Text.toDouble (String.ofList x.text)) (.finite x) = true := by
  by_cases hx : x.units = 0
  · have hzero : Text.toDouble (String.ofList ['0']) = .zero false := by decide +kernel
    rw [Finite.text_of_units_eq_zero hx, hzero, zero, same_finite]
    simp [Finite.signedUnits, hx]
  · rw [Finite.toDouble_text hx]
    exact same_self (by simp)

theorem Finite.text_eq_iff : x.text = y.text ↔ same (.finite x) (.finite y) = true := by
  constructor
  · intro h
    have hy := Finite.same_toDouble_text y
    rw [← h] at hy
    exact same_trans (same_comm (Finite.same_toDouble_text x)) hy
  · intro h
    have hsigned := same_finite.1 h
    have hunits : x.units = y.units := by
      rw [← x.natAbs_signedUnits, ← y.natAbs_signedUnits, hsigned]
    by_cases hx : x.units = 0
    · rw [Finite.text_of_units_eq_zero hx, Finite.text_of_units_eq_zero (hunits ▸ hx)]
    · have hsign : x.negative = y.negative := by
        rw [← Finite.decide_signedUnits_lt hx, hsigned,
          Finite.decide_signedUnits_lt (hunits ▸ hx)]
      rw [Finite.ext hsign hunits]

theorem text_denotes_shortest :
    (∀ x : Finite, x.units ≠ 0 →
      (shortest x).IsShortest x ∧ ∃ m n, x.IsPrinted (shortest x) m n) ∧
    ∀ x y : Finite, x.text = y.text ↔ same (.finite x) (.finite y) = true := by
  refine ⟨fun x hx => ⟨isShortest_shortest hx, ?_⟩, fun x y => Finite.text_eq_iff⟩
  obtain ⟨n, hwritten, hnegative, hvalue⟩ := Finite.written_text hx
  refine ⟨(shortest x).text, n, ?_⟩
  have hsign := Finite.decide_signedUnits_lt hx
  exact {
    text_eq := hsign ▸ Finite.text_of_units_ne_zero hx
    laid := laid_text _
    canonical := canonical_text (not_ten_dvd_shortest hx)
    first := value_bounds (coefficient_shortest_ne_zero hx)
    written := hwritten
    sign_eq := hnegative.trans hsign.symm
    value_eq := hvalue
    read := Finite.toDouble_text hx }

theorem text_denotes_shortest_of_tiny :
    ∃ x : Finite, x.units ≠ 0 ∧ x.text = "-1.1920928955078125e-7".toList ∧
      (shortest x).IsShortest x ∧ ∃ m n, x.IsPrinted (shortest x) m n := by
  let x : Finite := ⟨true, Nat.pow 2 1051, by decide +kernel, by decide +kernel⟩
  have hx : x.units ≠ 0 := by decide +kernel
  exact ⟨x, hx, by decide +kernel, text_denotes_shortest.1 x hx⟩

end Double

end TemplateExpr
