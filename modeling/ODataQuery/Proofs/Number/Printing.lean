import ODataQuery.Proofs.Number.Numeral
import ODataQuery.Proofs.Number.Shortest

/-!
# Integers printed from doubles

The double of an integer of 64 bits is printed as an integer again: of all integers that are
read as this double, the one that ends in the most zeros and, of these, the one closest to the
double. Below `2 ^ 53` there is no other integer with the same double, so nothing is lost;
above, an integer comes back only if it is this one.
-/

namespace ODataQuery

theorem Decimal.numeral_append_zeros {d : Nat} (hd : 0 < d) (k : Nat) :
    numeral d ++ List.replicate k '0' = numeral (d * 10 ^ k) := by
  have hvalue : Nat.ofDigitChars 10 (List.replicate k '0') d = d * 10 ^ k := by
    induction k generalizing d with
    | zero => rw [List.replicate_zero, Nat.ofDigitChars_nil, Nat.pow_zero, Nat.mul_one]
    | succ k ih =>
      rw [List.replicate_succ, Nat.ofDigitChars_cons, ih (by omega), pow_succ]
      simp only [Char.reduceToNat, Nat.sub_self, Nat.add_zero]
      ring
  have hzeros : ∀ c ∈ List.replicate k '0', c.isDigit := by
    intro c hc
    rw [List.eq_of_mem_replicate hc]
    rfl
  rw [numeral_append hd hzeros, hvalue]

theorem Decimal.positional_natCast {d : Nat} (hd : 0 < d) (k : Nat) :
    positional ⟨d, (k : Int)⟩ = numeral (d * 10 ^ k) := numeral_append_zeros hd k

namespace Binary64

/-- The number that a finite double is. -/
def value (x : Binary64) : ℚ :=
  match x.magnitude with
  | .finite m q => (if x.isNegative then -1 else 1) * (m * 2 ^ q)
  | _ => 0

theorem value_signed {m : Nat} {q : Int} (h : IsNormal m q) (negative : Bool) :
    (signed negative (pattern m q)).value = (if negative then -1 else 1) * (m * 2 ^ q) := by
  rw [value, magnitude_signed h,
    isNegative_signed negative ((pattern_lt h).trans infinityPattern_lt)]

theorem ofInt_eq_iff {m n : Int} : ofInt m = ofInt n ↔
    (m < 0 ↔ n < 0) ∧ ofRatio m.natAbs 1 = ofRatio n.natAbs 1 := by
  constructor
  · intro h
    obtain ⟨hsign, hratio⟩ := signed_inj (Nat.lt_of_le_of_lt (ofRatio_le m.natAbs 1) infinityPattern_lt)
      (Nat.lt_of_le_of_lt (ofRatio_le n.natAbs 1) infinityPattern_lt) h
    exact ⟨decide_eq_decide.mp hsign, hratio⟩
  · rintro ⟨hsign, hratio⟩
    rw [ofInt, ofInt, decide_eq_decide.mpr hsign, hratio]

theorem ofRatio_zero_ne_pattern {m : Nat} {q : Int} (h : IsNormal m q) :
    ofRatio 0 1 ≠ pattern m q := by
  have hzero : ofRatio 0 1 = 0 := rfl
  have hmantissa := h.le_mantissa
  unfold pattern leadingBit at *
  omega

theorem natCast_div_zpow_neg (n e : Nat) : (n : ℚ) / 2 ^ (-(e : Int)) = (n * 2 ^ e : Nat) := by
  rw [zpow_neg, zpow_natCast, div_inv_eq_mul]
  push_cast
  ring

/-- An integer of at most 53 bits has itself as its mantissa, with zeros behind it. -/
theorem exists_ofRatio_of_lt {n : Nat} (hn : n ≠ 0) (hlt : n < 2 ^ 53) :
    ∃ e : Nat, IsNormal (n * 2 ^ e) (-(e : Int)) ∧ ofRatio n 1 = pattern (n * 2 ^ e) (-(e : Int)) := by
  have hlog : n.log2 < 53 := (Nat.log2_lt hn).mpr hlt
  have hrange : -52 ≤ binade n ∧ binade n ≤ 0 := by
    unfold binade
    omega
  obtain ⟨e, he⟩ := Int.eq_ofNat_of_zero_le (neg_nonneg.mpr hrange.2)
  have hbinade : binade n = -(e : Int) := by omega
  have hbounds := scaled_binade hn
  rw [hbinade, natCast_div_zpow_neg] at hbounds
  have hnormal : IsNormal (n * 2 ^ e) (-(e : Int)) := by
    refine ⟨?_, ?_, by omega, by omega⟩
    · exact_mod_cast hbounds.1
    · exact_mod_cast hbounds.2
  refine ⟨e, hnormal, ?_⟩
  rw [ofRatio_eq_pattern_iff hn hnormal, natCast_div_zpow_neg]
  exact .inl ⟨hbinade, isNearest_self _⟩

/-- A double whose exponent is not positive is read from no more than one integer. -/
theorem eq_of_ofRatio_eq_pattern {m c e : Nat} (h : IsNormal c (-(e : Int)))
    (hm : ofRatio m 1 = pattern c (-(e : Int))) : m * 2 ^ e = c := by
  have hpos : m ≠ 0 := by
    rintro rfl
    exact ofRatio_zero_ne_pattern h hm
  rw [ofRatio_eq_pattern_iff hpos h, natCast_div_zpow_neg] at hm
  obtain ⟨-, hnearest⟩ | ⟨-, hbelow, hcarry⟩ := hm
  · exact (isNearest_self _).unique hnearest
  · -- nothing is rounded, so nothing is carried either
    have hnext : -(e : Int) - 1 = -((e + 1 : Nat) : Int) := by omega
    have hscaled := (scaled_binade hpos).2
    rw [hbelow, hnext, natCast_div_zpow_neg] at hscaled
    rw [hnext, natCast_div_zpow_neg] at hcarry
    rw [(isNearest_self _).unique hcarry] at hscaled
    norm_num [leadingBit] at hscaled

/-- **Below `2 ^ 53` no two integers have the same double.** -/
theorem ofRatio_inj_of_lt {m n : Nat} (hn : n ≠ 0) (hlt : n < 2 ^ 53)
    (h : ofRatio m 1 = ofRatio n 1) : m = n := by
  obtain ⟨e, hnormal, hpattern⟩ := exists_ofRatio_of_lt hn hlt
  have hmantissa := eq_of_ofRatio_eq_pattern hnormal (h.trans hpattern)
  exact Nat.eq_of_mul_eq_mul_right (Nat.two_pow_pos e) hmantissa

/-- The integer by which a double is printed: of all integers that are read as the double the
one with the most zeros at its end, of these the closest to the double, and of two as close the
one further from zero. -/
structure IsPrinted (x : Binary64) (n : Int) : Prop where
  reads : ofInt n = x
  roundest : ∀ (m : Int) (k : Nat), ofInt m = x → 10 ^ k ∣ m → 10 ^ k ∣ n
  closest : ∀ m : Int, ofInt m = x → (∀ k : Nat, 10 ^ k ∣ n → 10 ^ k ∣ m) →
    |n - x.value| < |m - x.value| ∨ |n - x.value| = |m - x.value| ∧ |m| ≤ |n|

theorem IsPrinted.unique {x : Binary64} {m n : Int} (hm : IsPrinted x m) (hn : IsPrinted x n) :
    m = n := by
  have habs : |m| = |n| := by
    obtain hlt | ⟨heq, hle⟩ := hm.closest n hn.reads fun k hk => hn.roundest m k hm.reads hk
    · obtain hgt | ⟨heq, -⟩ := hn.closest m hm.reads fun k hk => hm.roundest n k hn.reads hk
      · exact absurd hgt hlt.le.not_gt
      · exact absurd heq.symm hlt.ne
    · obtain hgt | ⟨-, hge⟩ := hn.closest m hm.reads fun k hk => hm.roundest n k hn.reads hk
      · exact absurd heq.symm hgt.ne
      · exact le_antisymm hge hle
  have hsign : m < 0 ↔ n < 0 := (ofInt_eq_iff.mp (hm.reads.trans hn.reads.symm)).1
  obtain heq | hneg := abs_eq_abs.mp habs
  · exact heq
  · omega

section

variable {m : Nat} {q : Int} {negative : Bool}

/-- The integers that are read as a double are those of its sign in its interval. -/
theorem ofInt_eq_signed_iff (h : IsNormal m q) (hq : -1074 < q) {i : Int} :
    ofInt i = signed negative (pattern m q) ↔
      decide (i < 0) = negative ∧ i ≠ 0 ∧ (Decimal.Rounding.of m q).Contains i.natAbs := by
  have hfinite := (pattern_lt h).trans infinityPattern_lt
  have hratio := (ofRatio_le i.natAbs 1).trans_lt infinityPattern_lt
  have hinj : ofInt i = signed negative (pattern m q) ↔
      decide (i < 0) = negative ∧ ofRatio i.natAbs 1 = pattern m q := by
    constructor
    · exact signed_inj hratio hfinite
    · rintro ⟨hsign, hpattern⟩
      rw [ofInt, hsign, hpattern]
  rw [hinj]
  apply and_congr_right
  intro _
  by_cases hi : i = 0
  · subst hi
    exact iff_of_false (ofRatio_zero_ne_pattern h) fun h => h.1 rfl
  · rw [Decimal.contains_of_iff_ofRatio h hq (Int.natAbs_ne_zero.mpr hi)]
    exact (and_iff_right hi).symm

/-- An integer and its double have one sign, so only their magnitudes are apart. -/
theorem abs_sub_value (h : IsNormal m q) {i : Int} (hsign : decide (i < 0) = negative) :
    |i - (signed negative (pattern m q)).value| =
      |(i.natAbs : ℚ) - (Decimal.Rounding.of m q).number| := by
  rw [value_signed h, Decimal.number_of, Nat.cast_natAbs]
  subst hsign
  by_cases hi : i < 0
  · rw [decide_eq_true hi, if_pos rfl, abs_of_neg hi, ← abs_neg]
    push_cast
    ring_nf
  · rw [decide_eq_false hi, if_neg Bool.false_ne_true, abs_of_nonneg (not_lt.mp hi), one_mul]

theorem exists_natAbs_eq_mul {i : Int} {k : Nat} (h : 10 ^ k ∣ i) :
    ∃ c : Nat, i.natAbs = c * 10 ^ k := by
  obtain ⟨c, hc⟩ := Int.natAbs_dvd_natAbs.mpr h
  refine ⟨c, ?_⟩
  rw [hc, Int.natAbs_pow, mul_comm]
  rfl

/-- The closest point of the coarsest grid is the printed integer. -/
theorem isPrinted_of_isClosest (h : IsNormal m q) (hq : -1074 < q) {d k : Nat} (hd : 0 < d)
    (hclosest : ((Decimal.Rounding.of m q).onGrid k).IsClosest d)
    (hcoarsest : ∀ j c : Nat, (Decimal.Rounding.of m q).Contains (c * 10 ^ (j : Int)) → j ≤ k)
    {s : Int} (hs : s.natAbs = d * 10 ^ k) (hsign : decide (s < 0) = negative) :
    IsPrinted (signed negative (pattern m q)) s := by
  have hten : (0 : ℚ) < 10 ^ k := by positivity
  have hround : (10 : Int) ^ k ∣ s := by
    rw [← Int.natAbs_dvd_natAbs, hs, Int.natAbs_pow]
    exact Nat.dvd_mul_left _ _
  constructor
  case reads =>
    have hne : s ≠ 0 := by
      rw [← Int.natAbs_ne_zero, hs]
      positivity
    have hcontains := (Decimal.Rounding.contains_onGrid _ _ _).mp hclosest.contains
    refine (ofInt_eq_signed_iff h hq).mpr ⟨hsign, hne, ?_⟩
    rw [hs]
    exact_mod_cast hcontains
  case roundest =>
    intro i j hi hdvd
    obtain ⟨-, -, hcontains⟩ := (ofInt_eq_signed_iff h hq).mp hi
    obtain ⟨c, hc⟩ := exists_natAbs_eq_mul hdvd
    rw [hc] at hcontains
    have hle : j ≤ k := hcoarsest j c (by exact_mod_cast hcontains)
    exact (pow_dvd_pow 10 hle).trans hround
  case closest =>
    intro i hi hdvd
    obtain ⟨hsign', -, hcontains⟩ := (ofInt_eq_signed_iff h hq).mp hi
    obtain ⟨c, hc⟩ := exists_natAbs_eq_mul (hdvd k hround)
    have hc' : ((Decimal.Rounding.of m q).onGrid k).Contains c := by
      rw [Decimal.Rounding.contains_onGrid]
      rw [hc] at hcontains
      exact_mod_cast hcontains
    have hnatAbs : |i| ≤ |s| ↔ c ≤ d := by
      rw [Int.abs_eq_natAbs, Int.abs_eq_natAbs, Int.ofNat_le, hs, hc]
      exact Nat.mul_le_mul_right_iff (by positivity)
    rw [abs_sub_value h hsign, abs_sub_value h hsign', hs, hc, hnatAbs,
      ← Decimal.Rounding.abs_sub_number_onGrid, ← Decimal.Rounding.abs_sub_number_onGrid,
      mul_lt_mul_iff_left₀ hten, mul_left_inj' hten.ne']
    exact hclosest.closest c hc'

end

theorem toText_zero : (ofInt 0).toText = Integer.toText 0 := rfl

theorem isPrinted_zero : IsPrinted (ofInt 0) 0 where
  reads := rfl
  roundest := fun _ _ _ _ => dvd_zero _
  closest := by
    intro m _ _
    have hvalue : (ofInt 0).value = 0 := by
      have hmagnitude : (ofInt 0).magnitude = .finite 0 (-1074) := rfl
      rw [value, hmagnitude]
      simp
    rw [hvalue, Int.cast_zero, sub_zero, sub_zero, abs_zero]
    obtain rfl | hm := eq_or_ne m 0
    · exact .inr ⟨by rw [Int.cast_zero, abs_zero], Int.le_refl _⟩
    · exact .inl (abs_pos.mpr (Int.cast_ne_zero.mpr hm))

/-- **An integer of 64 bits that is read as a double and printed** becomes the integer by which
the double is printed. -/
theorem toText_ofInt {n : Int} (hlt : n.natAbs < 2 ^ 64) :
    ∃ s, (ofInt n).toText = Integer.toText s ∧ IsPrinted (ofInt n) s := by
  by_cases hzero : n = 0
  · subst hzero
    exact ⟨0, toText_zero, isPrinted_zero⟩
  have hn : n.natAbs ≠ 0 := Int.natAbs_ne_zero.mpr hzero
  obtain ⟨m, q, hnormal, ⟨hlow, hhigh⟩, hratio⟩ := exists_ofRatio_eq_pattern hn hlt
  have hq : -1074 < q := by omega
  have hx : ofInt n = signed (n < 0) (pattern m q) := by rw [ofInt, hratio]
  obtain ⟨d, k, hpos, hshortest, hclosest, hcoarsest⟩ := Decimal.shortest_of_contains hnormal hlow
    hhigh ((Decimal.contains_of_iff_ofRatio hnormal hq hn).mpr hratio)
  obtain ⟨s, hs, hsign⟩ : ∃ s : Int, s.natAbs = d * 10 ^ k ∧ (s < 0 ↔ n < 0) := by
    have hprod : 0 < d * 10 ^ k := by positivity
    by_cases hneg : n < 0
    · exact ⟨-(d * 10 ^ k : Nat), by omega, by omega⟩
    · exact ⟨(d * 10 ^ k : Nat), by omega, by omega⟩
  refine ⟨s, ?_, ?_⟩
  · apply String.toList_inj.mp
    rw [Integer.toList_toText, hs, hx, toText, magnitude_signed hnormal]
    dsimp only
    rw [String.toList_ofList, hshortest, Decimal.positional_natCast hpos, sign,
      isNegative_signed _ ((pattern_lt hnormal).trans infinityPattern_lt)]
    simp only [decide_eq_true_eq, hsign]
  · rw [hx]
    exact isPrinted_of_isClosest hnormal hq hpos hclosest hcoarsest hs (decide_eq_decide.mpr hsign)

theorem isFinite_ofInt {n : Int} (hlt : n.natAbs < 2 ^ 64) : (ofInt n).isFinite := by
  by_cases hzero : n = 0
  · rw [hzero]
    rfl
  · obtain ⟨m, q, hnormal, -, hratio⟩ :=
      exists_ofRatio_eq_pattern (Int.natAbs_ne_zero.mpr hzero) hlt
    rw [ofInt, hratio, isFinite, magnitude_signed hnormal]

/-- Up to `2 ^ 53` every integer is printed as itself. -/
theorem toText_ofInt_of_le {n : Int} (hle : n.natAbs ≤ 2 ^ 53) :
    (ofInt n).toText = Integer.toText n := by
  by_cases hzero : n = 0
  · rw [hzero, toText_zero]
  obtain hlt | hlast := Nat.lt_or_eq_of_le hle
  · obtain ⟨s, htext, hprinted⟩ := toText_ofInt (hle.trans_lt (by decide))
    obtain ⟨hsign, hratio⟩ := ofInt_eq_iff.mp hprinted.reads
    have hnatAbs := ofRatio_inj_of_lt (Int.natAbs_ne_zero.mpr hzero) hlt hratio
    have hs : s = n := by omega
    rw [htext, hs]
  · obtain rfl | rfl := Int.natAbs_eq_natAbs_iff.mp (show n.natAbs = Int.natAbs (2 ^ 53) from hlast)
    · rfl
    · rfl

end Binary64

end ODataQuery
