import Mathlib.Algebra.Order.Field.Rat
import Mathlib.Algebra.Order.Field.Power
import Mathlib.Tactic.FieldSimp
import Mathlib.Tactic.Linarith
import Mathlib.Tactic.NormNum
import Mathlib.Tactic.Positivity
import Mathlib.Tactic.Ring
import ODataQuery.Number.Binary64

/-!
# The double nearest to an integer

A positive integer over the right power of two lies between `2 ^ 52` and `2 ^ 53`, and the
mantissa of its double is the nearest integer there. If this is `2 ^ 53` itself, the carry
makes it the least mantissa of the next exponent. Ratios and powers are rational numbers here.
-/

namespace ODataQuery.Binary64

theorem overPower_pos {base : Nat} (hbase : 0 < base) (power : Int) (a : Nat) {b : Nat}
    (hb : 0 < b) : 0 < (overPower base power a b).2 := by
  cases power with
  | ofNat n => exact Nat.mul_pos hb (Nat.pow_pos hbase)
  | negSucc n => exact hb

/-- `overPower` is division by a power. -/
theorem overPower_div {base : Nat} (hbase : 0 < base) (power : Int) (a : Nat) {b : Nat}
    (hb : 0 < b) : ((overPower base power a b).1 : ℚ) / (overPower base power a b).2 =
      a / b / (base : ℚ) ^ power := by
  have hbase' : (base : ℚ) ≠ 0 := by exact_mod_cast hbase.ne'
  have hb' : (b : ℚ) ≠ 0 := by exact_mod_cast hb.ne'
  cases power with
  | ofNat n =>
    simp only [overPower, Nat.pow_eq, Nat.cast_mul, Nat.cast_pow, Int.ofNat_eq_natCast,
      zpow_natCast]
    rw [div_div]
  | negSucc n =>
    simp only [overPower, Nat.pow_eq, Nat.cast_mul, Nat.cast_pow, zpow_negSucc]
    field_simp

/-- The integer nearest to a number, of two such integers the even one. -/
structure IsNearest (y : ℚ) (n : Nat) : Prop where
  close : |y - n| ≤ 1 / 2
  even : |y - n| = 1 / 2 → n % 2 = 0

theorem IsNearest.unique {y : ℚ} {m n : Nat} (hm : IsNearest y m) (hn : IsNearest y n) : m = n := by
  have hle {m n : Nat} (hm : IsNearest y m) (hn : IsNearest y n) : n ≤ m := by
    by_contra hlt
    obtain ⟨hmlow, hmhigh⟩ := abs_le.mp hm.close
    obtain ⟨hnlow, hnhigh⟩ := abs_le.mp hn.close
    have hnext : (m : ℚ) + 1 ≤ n := by exact_mod_cast Nat.lt_of_not_le hlt
    -- both are half a step away, so both are even
    have hhalf : y - m = 1 / 2 := by linarith
    have hhalf' : y - n = -(1 / 2) := by linarith
    have hm' := hm.even (by rw [hhalf]; norm_num)
    have hn' := hn.even (by rw [hhalf']; norm_num)
    have hsucc : (n : ℚ) = (m + 1 : Nat) := by
      push_cast
      linarith
    have heq : n = m + 1 := by exact_mod_cast hsucc
    omega
  exact Nat.le_antisymm (hle hn hm) (hle hm hn)

theorem isNearest_self (n : Nat) : IsNearest n n := by
  constructor
  · rw [sub_self, abs_zero]
    norm_num
  · rw [sub_self, abs_zero]
    norm_num

theorem isNearest_of_le_half {n : Nat} {f : ℚ} (hpos : 0 ≤ f) (hle : f ≤ 1 / 2)
    (heven : f = 1 / 2 → n % 2 = 0) : IsNearest (n + f) n := by
  have hdistance : |(n : ℚ) + f - n| = f := by
    rw [add_sub_cancel_left, abs_of_nonneg hpos]
  constructor
  · rwa [hdistance]
  · rwa [hdistance]

theorem isNearest_succ_of_half_le {n : Nat} {f : ℚ} (hle : 1 / 2 ≤ f) (hlt : f < 1)
    (heven : f = 1 / 2 → (n + 1) % 2 = 0) : IsNearest (n + f) (n + 1) := by
  have hdistance : |(n : ℚ) + f - (n + 1 : Nat)| = 1 - f := by
    rw [abs_sub_comm, abs_of_nonneg]
    · push_cast
      ring
    · push_cast
      linarith
  constructor
  · rw [hdistance]
    linarith
  · rw [hdistance]
    intro htie
    exact heven (by linarith)

theorem isNearest_divNearest (a : Nat) {b : Nat} (hb : 0 < b) :
    IsNearest ((a : ℚ) / b) (divNearest a b) := by
  have hb' : (0 : ℚ) < b := by exact_mod_cast hb
  have hsplit : (a : ℚ) / b = (a / b : Nat) + (a % b : Nat) / (b : ℚ) := by
    have hdiv : (a : ℚ) = b * (a / b : Nat) + (a % b : Nat) := by
      exact_mod_cast (Nat.div_add_mod a b).symm
    rw [div_eq_iff hb'.ne', add_mul, div_mul_cancel₀ _ hb'.ne', mul_comm]
    exact hdiv
  have hlt : (a % b : Nat) / (b : ℚ) < 1 := by
    rw [div_lt_one hb']
    exact_mod_cast Nat.mod_lt a hb
  have hpos : 0 ≤ (a % b : Nat) / (b : ℚ) := by positivity
  have hbelow : (a % b : Nat) / (b : ℚ) < 1 / 2 ↔ 2 * (a % b) < b := by
    rw [div_lt_div_iff₀ hb' two_pos]
    norm_cast
    omega
  have hhalf : (a % b : Nat) / (b : ℚ) = 1 / 2 ↔ 2 * (a % b) = b := by
    rw [div_eq_div_iff hb'.ne' two_ne_zero]
    norm_cast
    omega
  unfold divNearest
  generalize (a % b : Nat) / (b : ℚ) = f at hsplit hlt hpos hbelow hhalf
  rw [hsplit]
  dsimp only
  split
  · rename_i hup
    have hle : ¬f < 1 / 2 := fun h => by
      have hlow := hbelow.mp h
      omega
    refine isNearest_succ_of_half_le (not_lt.mp hle) hlt fun htie => ?_
    have heq := hhalf.mp htie
    omega
  · rename_i hdown
    have hle : f ≤ 1 / 2 := by
      by_contra hgt
      have hhigh : ¬f < 1 / 2 := not_lt.mpr (le_of_not_ge hgt)
      have hne : f ≠ 1 / 2 := (lt_of_not_ge hgt).ne'
      rw [hbelow] at hhigh
      rw [Ne, hhalf] at hne
      omega
    refine isNearest_of_le_half hpos hle fun htie => ?_
    have heq := hhalf.mp htie
    omega

/-- The mantissas and exponents of normal doubles. -/
structure IsNormal (mantissa : Nat) (exponent : Int) : Prop where
  le_mantissa : leadingBit ≤ mantissa
  mantissa_lt : mantissa < 2 * leadingBit
  le_exponent : -1074 ≤ exponent
  exponent_le : exponent ≤ 971

theorem cast_leadingBit : (leadingBit : ℚ) = 2 ^ 52 := by norm_num [leadingBit]

/-- The pattern of a mantissa and its exponent. The leading bit of the mantissa counts in the
exponent field, so a mantissa that is carried over the field's end has the right pattern too. -/
def pattern (mantissa : Nat) (exponent : Int) : Nat :=
  mantissa + (exponent + 1074).toNat * leadingBit

variable {m : Nat} {q : Int}

theorem IsNormal.two_pow_le (h : IsNormal m q) : (2 : ℚ) ^ 52 ≤ m := by
  rw [← cast_leadingBit]
  exact_mod_cast h.le_mantissa

theorem IsNormal.add_one_le (h : IsNormal m q) : (m : ℚ) + 1 ≤ 2 ^ 53 := by
  have hlt : (m : ℚ) + 1 ≤ 2 * leadingBit := by exact_mod_cast h.mantissa_lt
  rw [cast_leadingBit] at hlt
  linarith

theorem pattern_lt (h : IsNormal m q) : pattern m q < infinityPattern := by
  obtain ⟨hlow, hhigh, hq, hq'⟩ := h
  unfold pattern infinityPattern
  unfold leadingBit at *
  omega

theorem toNat_signed (negative : Bool) {p : Nat} (hp : p < signBit) :
    (signed negative p).bits.toNat = if negative then signBit + p else p := by
  have hlt : (if negative then signBit + p else p) < 2 ^ 64 := by
    unfold signBit at *
    split <;> omega
  rw [signed, UInt64.toNat_ofNat_of_lt' hlt]

theorem infinityPattern_lt : infinityPattern < signBit := by decide

theorem isNegative_signed (negative : Bool) {p : Nat} (hp : p < signBit) :
    (signed negative p).isNegative = negative := by
  rw [isNegative, toNat_signed negative hp]
  cases negative with
  | true => simp
  | false => simpa using hp

theorem signed_inj {negative negative' : Bool} {p p' : Nat} (hp : p < signBit) (hp' : p' < signBit)
    (h : signed negative p = signed negative' p') : negative = negative' ∧ p = p' := by
  have hsign : negative = negative' := by
    rw [← isNegative_signed negative hp, h, isNegative_signed negative' hp']
  subst hsign
  have hbits := congrArg (fun x : Binary64 => x.bits.toNat) h
  simp only [toNat_signed negative hp, toNat_signed negative hp'] at hbits
  refine ⟨rfl, ?_⟩
  split at hbits
  · omega
  · exact hbits

/-- **A pattern shows its mantissa and its exponent,** whatever the sign. -/
theorem magnitude_signed (h : IsNormal m q) (negative : Bool) :
    (signed negative (pattern m q)).magnitude = .finite m q := by
  have hlt := Nat.lt_trans (pattern_lt h) infinityPattern_lt
  obtain ⟨hlow, hhigh, hq, hq'⟩ := h
  have hfield : (signed negative (pattern m q)).bits.toNat / leadingBit % 2048 =
      (q + 1075).toNat := by
    rw [toNat_signed negative hlt]
    unfold pattern signBit leadingBit at *
    split <;> omega
  have hfraction : (signed negative (pattern m q)).bits.toNat % leadingBit = m - leadingBit := by
    rw [toNat_signed negative hlt]
    unfold pattern signBit leadingBit at *
    split <;> omega
  have hgreatest : (q + 1075).toNat ≠ 2047 := by omega
  have hleast : (q + 1075).toNat ≠ 0 := by omega
  have hmantissa : leadingBit + (m - leadingBit) = m := by omega
  have hexponent : ((q + 1075).toNat : Int) - 1075 = q := by omega
  rw [magnitude, hfield, hfraction, if_neg hgreatest, if_neg hleast, hmantissa, hexponent]

/-- The exponent of the binade that holds a positive integer. -/
def binade (n : Nat) : Int := (n.log2 : Int) - 52

theorem two_zpow_pos (q : Int) : (0 : ℚ) < 2 ^ q := zpow_pos two_pos q

theorem two_zpow_succ (q : Int) : (2 : ℚ) ^ (q + 1) = 2 * 2 ^ q := by
  rw [zpow_add_one₀ two_ne_zero, mul_comm]

theorem two_zpow_binade (n : Nat) : (2 : ℚ) ^ binade n * 2 ^ 52 = 2 ^ n.log2 := by
  have hsplit : ((n.log2 : Nat) : Int) = binade n + (52 : Nat) := by
    unfold binade
    omega
  rw [← zpow_natCast, ← zpow_natCast, hsplit, zpow_add₀ two_ne_zero]

/-- A positive integer over the power of its binade has 53 binary digits. -/
theorem scaled_binade {n : Nat} (hn : n ≠ 0) :
    2 ^ 52 ≤ (n : ℚ) / 2 ^ binade n ∧ (n : ℚ) / 2 ^ binade n < 2 ^ 53 := by
  have hpos := two_zpow_pos (binade n)
  have hpower := two_zpow_binade n
  have hlow : (2 : ℚ) ^ n.log2 ≤ n := by exact_mod_cast Nat.log2_self_le hn
  have hhigh : (n : ℚ) < 2 ^ (n.log2 + 1) := by exact_mod_cast Nat.lt_log2_self
  rw [le_div_iff₀ hpos, div_lt_iff₀ hpos]
  constructor
  · linarith
  · rw [pow_succ, ← hpower] at hhigh
    linarith

/-- No other power leaves as many. -/
theorem binade_eq {n : Nat} (hn : n ≠ 0) (hlow : 2 ^ 52 ≤ (n : ℚ) / 2 ^ q)
    (hhigh : (n : ℚ) / 2 ^ q < 2 ^ 53) : binade n = q := by
  have hle {p q : Int} (hlow : 2 ^ 52 ≤ (n : ℚ) / 2 ^ p) (hhigh : (n : ℚ) / 2 ^ q < 2 ^ 53) :
      p ≤ q := by
    rw [le_div_iff₀ (two_zpow_pos p)] at hlow
    rw [div_lt_iff₀ (two_zpow_pos q)] at hhigh
    have hlt : (2 : ℚ) ^ p < 2 ^ (q + 1) := by
      rw [two_zpow_succ]
      linarith
    have hexponent := (zpow_lt_zpow_iff_right₀ one_lt_two).mp hlt
    omega
  obtain ⟨hlow', hhigh'⟩ := scaled_binade hn
  exact Int.le_antisymm (hle hlow' hhigh) (hle hlow hhigh')

theorem ofRatio_le (num den : Nat) : ofRatio num den ≤ infinityPattern := by
  unfold ofRatio
  split
  · exact Nat.zero_le _
  · exact Nat.min_le_right _ _

/-- The double of a positive integer. The mantissa may be rounded up to the end of its field. -/
theorem ofRatio_one {n : Nat} (hn : n ≠ 0) : ∃ c, IsNearest ((n : ℚ) / 2 ^ binade n) c ∧
    (leadingBit ≤ c ∧ c ≤ 2 * leadingBit) ∧
    ofRatio n 1 = min (pattern c (binade n)) infinityPattern := by
  have hone : Nat.log2 1 = 0 := by decide
  have htop : ¬(overPower 2 (n.log2 : Int) n 1).1 < (overPower 2 (n.log2 : Int) n 1).2 := by
    change ¬n < 1 * Nat.pow 2 n.log2
    rw [Nat.one_mul]
    exact Nat.not_lt.mpr (Nat.log2_self_le hn)
  have hexponent : max ((n.log2 : Int) - 52) (-1074) = binade n := by
    unfold binade
    omega
  have hnearest : IsNearest ((n : ℚ) / 2 ^ binade n)
      (divNearest (overPower 2 (binade n) n 1).1 (overPower 2 (binade n) n 1).2) := by
    have hratio := overPower_div two_pos (binade n) n one_pos
    rw [Nat.cast_one, div_one, Nat.cast_ofNat] at hratio
    rw [← hratio]
    exact isNearest_divNearest _ (overPower_pos two_pos (binade n) n one_pos)
  refine ⟨_, hnearest, ?_, ?_⟩
  · obtain ⟨hlow, hhigh⟩ := scaled_binade hn
    obtain ⟨hclow, hchigh⟩ := abs_le.mp hnearest.close
    generalize divNearest _ _ = c at *
    have hleading := cast_leadingBit
    constructor
    · have hlt : (leadingBit : ℚ) < c + 1 := by linarith
      have hle : leadingBit < c + 1 := by exact_mod_cast hlt
      omega
    · have hlt : (c : ℚ) < 2 * leadingBit + 1 := by linarith
      have hle : c < 2 * leadingBit + 1 := by exact_mod_cast hlt
      omega
  · rw [ofRatio, if_neg hn, hone, Nat.cast_zero, sub_zero]
    simp only [if_neg htop, hexponent]
    rfl

/-- An integer is read as the double with the nearest mantissa of its binade, or with the
least mantissa of the next one where the nearest is carried over. -/
theorem ofRatio_eq_pattern_iff {n : Nat} (hn : n ≠ 0) (h : IsNormal m q) :
    ofRatio n 1 = pattern m q ↔ (binade n = q ∧ IsNearest ((n : ℚ) / 2 ^ q) m) ∨
      (m = leadingBit ∧ binade n = q - 1 ∧
        IsNearest ((n : ℚ) / 2 ^ (q - 1)) (2 * leadingBit)) := by
  obtain ⟨c, hc, hcarry, hratio⟩ := ofRatio_one hn
  have hfinite := pattern_lt h
  obtain ⟨hmlow, hmhigh, hq, hq'⟩ := h
  have hbinade : -1074 ≤ binade n := by
    unfold binade
    omega
  rw [hratio]
  constructor
  · intro heq
    have hpattern : pattern c (binade n) = pattern m q := by omega
    have hfields : (binade n = q ∧ c = m) ∨
        (m = leadingBit ∧ binade n = q - 1 ∧ c = 2 * leadingBit) := by
      unfold pattern leadingBit at *
      omega
    obtain ⟨hq, rfl⟩ | ⟨hm, hq, rfl⟩ := hfields
    · exact .inl ⟨hq, hq ▸ hc⟩
    · exact .inr ⟨hm, hq, hq ▸ hc⟩
  · rintro (⟨hq, hm⟩ | ⟨hm, hq, htop⟩)
    · rw [hq] at hc
      rw [hq, hc.unique hm]
      omega
    · rw [hq] at hc
      rw [hq, hc.unique htop]
      unfold pattern leadingBit at *
      omega

/-- Every positive integer of 64 bits is read as a normal double. -/
theorem exists_ofRatio_eq_pattern {n : Nat} (hn : n ≠ 0) (hlt : n < 2 ^ 64) :
    ∃ m q, IsNormal m q ∧ (-52 ≤ q ∧ q ≤ 12) ∧ ofRatio n 1 = pattern m q := by
  obtain ⟨c, -, ⟨hlow, hhigh⟩, hratio⟩ := ofRatio_one hn
  have hlog : n.log2 < 64 := (Nat.log2_lt hn).mpr hlt
  have hbinade : -52 ≤ binade n ∧ binade n ≤ 11 := by
    unfold binade
    omega
  obtain hcarried | rfl := Nat.lt_or_eq_of_le hhigh
  · have hnormal : IsNormal c (binade n) := ⟨hlow, hcarried, by omega, by omega⟩
    refine ⟨c, binade n, hnormal, by omega, ?_⟩
    rw [hratio, Nat.min_eq_left (pattern_lt hnormal).le]
  · have hnormal : IsNormal leadingBit (binade n + 1) := ⟨Nat.le_refl _, by decide, by omega, by omega⟩
    have hcarry : pattern (2 * leadingBit) (binade n) = pattern leadingBit (binade n + 1) := by
      unfold pattern leadingBit
      omega
    refine ⟨leadingBit, binade n + 1, hnormal, by omega, ?_⟩
    rw [hratio, hcarry, Nat.min_eq_left (pattern_lt hnormal).le]

end ODataQuery.Binary64
