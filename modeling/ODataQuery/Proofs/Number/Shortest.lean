import ODataQuery.Number.Shortest
import ODataQuery.Proofs.Number.Rounding

/-!
# The decimal that is printed

What rounds to a double is an interval around it. A decimal grid has a point in the interval
only if one of the two points next to the double is one, so the search finds the coarsest
grid with such a point and on it the point closest to the double.
-/

namespace ODataQuery.Decimal

namespace Rounding

variable {r : Rounding}

def lowEnd (r : Rounding) : ℚ := r.low / r.den

def number (r : Rounding) : ℚ := r.value / r.den

def highEnd (r : Rounding) : ℚ := r.high / r.den

/-- The numbers of the interval, its ends among them if it is closed. -/
def Contains (r : Rounding) (y : ℚ) : Prop :=
  if r.closed then r.lowEnd ≤ y ∧ y ≤ r.highEnd else r.lowEnd < y ∧ y < r.highEnd

/-- An interval that holds the number around which it lies. -/
structure IsProper (r : Rounding) : Prop where
  den_pos : 0 < r.den
  contains_number : r.Contains r.number

theorem Contains.between {x y z : ℚ} (hx : r.Contains x) (hz : r.Contains z) (hxy : x ≤ y)
    (hyz : y ≤ z) : r.Contains y := by
  unfold Contains at *
  split at hx
  · rename_i hclosed
    rw [if_pos hclosed] at hz ⊢
    exact ⟨hx.1.trans hxy, hyz.trans hz.2⟩
  · rename_i hopen
    rw [if_neg hopen] at hz ⊢
    exact ⟨hx.1.trans_le hxy, hyz.trans_lt hz.2⟩

theorem holds_iff (hden : 0 < r.den) (n : Nat) : r.holds n = true ↔ r.Contains n := by
  have hden' : (0 : ℚ) < r.den := by exact_mod_cast hden
  unfold holds Contains lowEnd highEnd
  split
  · rw [Bool.and_eq_true, decide_eq_true_eq, decide_eq_true_eq, div_le_iff₀ hden',
      le_div_iff₀ hden']
    norm_cast
  · rw [Bool.and_eq_true, decide_eq_true_eq, decide_eq_true_eq, div_lt_iff₀ hden',
      lt_div_iff₀ hden']
    norm_cast

theorem onGrid_div (r : Rounding) (grid : Int) (a : Nat) :
    ((a * (Binary64.overPower 10 grid 1 1).1 : Nat) : ℚ) /
      (r.den * (Binary64.overPower 10 grid 1 1).2 : Nat) = a / r.den / 10 ^ grid := by
  have hratio := Binary64.overPower_div (show 0 < 10 by decide) grid 1 one_pos
  push_cast at hratio ⊢
  rw [mul_div_mul_comm, hratio]
  ring

theorem contains_onGrid (r : Rounding) (grid : Int) (y : ℚ) :
    (r.onGrid grid).Contains y ↔ r.Contains (y * 10 ^ grid) := by
  have hpos : (0 : ℚ) < 10 ^ grid := zpow_pos (by norm_num) grid
  have hlow : (r.onGrid grid).lowEnd = r.lowEnd / 10 ^ grid := onGrid_div r grid r.low
  have hhigh : (r.onGrid grid).highEnd = r.highEnd / 10 ^ grid := onGrid_div r grid r.high
  have hclosed : (r.onGrid grid).closed = r.closed := rfl
  rw [Contains, Contains, hlow, hhigh, hclosed, div_le_iff₀ hpos, div_lt_iff₀ hpos,
    le_div_iff₀ hpos, lt_div_iff₀ hpos]

theorem number_onGrid (r : Rounding) (grid : Int) :
    (r.onGrid grid).number = r.number / 10 ^ grid := onGrid_div r grid r.value

/-- A distance on the grid is a distance on the line, over the step of the grid. -/
theorem abs_sub_number_onGrid (r : Rounding) (a k : Nat) :
    |(a : ℚ) - (r.onGrid k).number| * 10 ^ k = |((a * 10 ^ k : Nat) : ℚ) - r.number| := by
  have hten : (0 : ℚ) < 10 ^ k := by positivity
  calc |(a : ℚ) - (r.onGrid k).number| * 10 ^ k
    _ = |((a : ℚ) - (r.onGrid k).number) * 10 ^ k| := by rw [abs_mul, abs_of_pos hten]
    _ = |((a * 10 ^ k : Nat) : ℚ) - r.number| := by
      rw [number_onGrid, zpow_natCast, sub_mul, div_mul_cancel₀ _ hten.ne']
      push_cast
      rfl

theorem IsProper.onGrid (h : r.IsProper) (grid : Int) : (r.onGrid grid).IsProper where
  den_pos := Nat.mul_pos h.den_pos (Binary64.overPower_pos (by decide) grid 1 one_pos)
  contains_number := by
    have hpos : (0 : ℚ) < 10 ^ grid := zpow_pos (by norm_num) grid
    rw [contains_onGrid, number_onGrid, div_mul_cancel₀ _ hpos.ne']
    exact h.contains_number

/-- A point of the interval to which no other one is closer; of two as close, the one above. -/
structure IsClosest (r : Rounding) (n : Nat) : Prop where
  contains : r.Contains n
  closest : ∀ k : Nat, r.Contains k → |n - r.number| < |k - r.number| ∨
    |n - r.number| = |k - r.number| ∧ k ≤ n

/-- The point of the grid that the number does not go below. -/
def floor (r : Rounding) : Nat := r.value / r.den

theorem number_eq (h : r.IsProper) :
    r.number = r.floor + ((r.value % r.den : Nat) : ℚ) / r.den := by
  have hden : (r.den : ℚ) ≠ 0 := by exact_mod_cast h.den_pos.ne'
  have hdiv : (r.value : ℚ) = r.den * r.floor + (r.value % r.den : Nat) := by
    exact_mod_cast (Nat.div_add_mod r.value r.den).symm
  rw [number, hdiv]
  field_simp

theorem floor_le (h : r.IsProper) : (r.floor : ℚ) ≤ r.number := by
  rw [number_eq h]
  have hpos : 0 ≤ ((r.value % r.den : Nat) : ℚ) / r.den := by positivity
  linarith

theorem lt_floor_succ (h : r.IsProper) : r.number < r.floor + 1 := by
  have hden : (0 : ℚ) < r.den := by exact_mod_cast h.den_pos
  have hlt : ((r.value % r.den : Nat) : ℚ) / r.den < 1 := by
    rw [div_lt_one hden]
    exact_mod_cast Nat.mod_lt r.value h.den_pos
  rw [number_eq h]
  linarith

/-- Any point of the interval below the number leaves the floor in the interval. -/
theorem contains_floor (h : r.IsProper) {k : Nat} (hk : r.Contains k) (hle : k ≤ r.floor) :
    r.Contains r.floor :=
  hk.between h.contains_number (by exact_mod_cast hle) (floor_le h)

theorem contains_floor_succ (h : r.IsProper) {k : Nat} (hk : r.Contains k) (hlt : r.floor < k) :
    r.Contains (r.floor + 1 : Nat) := by
  apply h.contains_number.between hk
  · push_cast
    exact (lt_floor_succ h).le
  · exact_mod_cast hlt

theorem isClosest_floor (h : r.IsProper) (hfloor : r.Contains r.floor)
    (hcloser : r.Contains (r.floor + 1 : Nat) → r.number - r.floor < 1 / 2) :
    r.IsClosest r.floor where
  contains := hfloor
  closest := by
    intro k hk
    have hle := floor_le h
    rw [abs_sub_comm, abs_of_nonneg (by linarith)]
    obtain hlt | rfl | hgt := lt_trichotomy k r.floor
    · have hlt' : (k : ℚ) < r.floor := by exact_mod_cast hlt
      rw [abs_sub_comm, abs_of_nonneg (by linarith)]
      exact .inl (by linarith)
    · rw [abs_sub_comm, abs_of_nonneg (by linarith)]
      exact .inr ⟨rfl, Nat.le_refl _⟩
    · have hhalf := hcloser (contains_floor_succ h hk hgt)
      have hgt' : (r.floor : ℚ) + 1 ≤ k := by exact_mod_cast hgt
      rw [abs_of_nonneg (by linarith [lt_floor_succ h])]
      exact .inl (by linarith)

theorem isClosest_floor_succ (h : r.IsProper) (hsucc : r.Contains (r.floor + 1 : Nat))
    (hcloser : r.Contains r.floor → 1 / 2 ≤ r.number - r.floor) :
    r.IsClosest (r.floor + 1) where
  contains := hsucc
  closest := by
    intro k hk
    have hlt := lt_floor_succ h
    push_cast
    rw [abs_of_nonneg (by linarith)]
    obtain hle | hgt := Nat.lt_or_ge r.floor k
    · have hle' : (r.floor : ℚ) + 1 ≤ k := by exact_mod_cast hle
      rw [abs_of_nonneg (by linarith)]
      obtain heq | hne := hle'.eq_or_lt
      · have hk' : k = r.floor + 1 := by exact_mod_cast heq.symm
        exact .inr ⟨by rw [heq], hk'.le⟩
      · exact .inl (by linarith)
    · have hhalf := hcloser (contains_floor h hk hgt)
      have hgt' : (k : ℚ) ≤ r.floor := by exact_mod_cast hgt
      rw [abs_sub_comm (k : ℚ), abs_of_nonneg (by linarith [floor_le h])]
      obtain hless | heq := (show (r.floor : ℚ) + 1 - r.number ≤ r.number - k by linarith).lt_or_eq
      · exact .inl hless
      · exact .inr ⟨heq, by omega⟩

theorem sub_floor_lt_iff (h : r.IsProper) :
    r.number - r.floor < 1 / 2 ↔ 2 * (r.value % r.den) < r.den := by
  have hden : (0 : ℚ) < r.den := by exact_mod_cast h.den_pos
  rw [number_eq h, add_sub_cancel_left, div_lt_div_iff₀ hden two_pos]
  norm_cast
  omega

/-- **The closest point of the grid is found,** if any lies in the interval. -/
theorem neighbour?_up (h : r.IsProper) :
    (r.neighbour? .up = none ∧ ∀ k : Nat, ¬r.Contains k) ∨
      ∃ n, r.neighbour? .up = some n ∧ r.IsClosest n := by
  have hfloor : r.value / r.den = r.floor := rfl
  have hholds {n : Nat} (hn : r.holds n = true) : r.Contains n := (holds_iff h.den_pos n).mp hn
  have hmisses {n : Nat} (hn : r.holds n = false) : ¬r.Contains n := by
    rw [← holds_iff h.den_pos, hn]
    exact Bool.false_ne_true
  unfold neighbour?
  simp only [hfloor]
  cases hbelow : r.holds r.floor with
  | false =>
    cases habove : r.holds (r.floor + 1) with
    | false =>
      refine .inl ⟨rfl, fun k hk => ?_⟩
      obtain hle | hlt := (Nat.lt_or_ge r.floor k).symm
      · exact hmisses hbelow (contains_floor h hk hle)
      · exact hmisses habove (contains_floor_succ h hk hlt)
    | true =>
      exact .inr ⟨_, rfl, isClosest_floor_succ h (hholds habove) fun hk =>
        absurd hk (hmisses hbelow)⟩
  | true =>
    cases habove : r.holds (r.floor + 1) with
    | false =>
      exact .inr ⟨_, rfl, isClosest_floor h (hholds hbelow) fun hk =>
        absurd hk (hmisses habove)⟩
    | true =>
      right
      dsimp only
      split
      · rename_i hless
        exact ⟨_, rfl, isClosest_floor h (hholds hbelow) fun _ => (sub_floor_lt_iff h).mpr hless⟩
      · rename_i hmore
        have hhalf := not_lt.mp (mt (sub_floor_lt_iff h).mp hmore)
        refine ⟨_, ?_, isClosest_floor_succ h (hholds habove) fun _ => hhalf⟩
        split <;> rfl

end Rounding

/-- The decimal is on the coarsest grid up to `top` that has a point in the interval, and is
the closest point there. -/
structure IsCoarsest (r : Rounding) (top : Int) (d : Decimal) : Prop where
  le_top : d.exponent ≤ top
  isClosest : (r.onGrid d.exponent).IsClosest d.digits
  coarsest : ∀ (grid : Int) (k : Nat), d.exponent < grid → grid ≤ top →
    ¬r.Contains (k * 10 ^ grid)

theorem isCoarsest_search {r : Rounding} (h : r.IsProper) {grid : Int} {k : Nat}
    (hk : r.Contains (k * 10 ^ grid)) {fuel : Nat} {top : Int} (htop : grid ≤ top)
    (hfuel : top < grid + fuel) : IsCoarsest r top (search .up r fuel top) := by
  induction fuel generalizing top with
  | zero => omega
  | succ fuel ih =>
    rw [search]
    obtain ⟨hnone, hmisses⟩ | ⟨n, hn, hclosest⟩ := Rounding.neighbour?_up (h.onGrid top)
    · rw [hnone]
      dsimp only
      have hne : grid ≠ top := by
        rintro rfl
        exact hmisses k ((Rounding.contains_onGrid r grid k).mpr hk)
      have hbelow : IsCoarsest r (top - 1) (search .up r fuel (top - 1)) :=
        ih (by omega) (by omega)
      obtain ⟨hle, hclosest, hcoarsest⟩ := hbelow
      refine ⟨by omega, hclosest, fun g j hg hgtop => ?_⟩
      obtain hlt | rfl := Int.lt_or_eq_of_le hgtop
      · exact hcoarsest g j hg (by omega)
      · exact fun hj => hmisses j ((Rounding.contains_onGrid r g j).mpr hj)
    · rw [hn]
      dsimp only
      exact ⟨Int.le_refl top, hclosest, fun g j hg hgtop => absurd hgtop (Int.not_le.mpr hg)⟩

section

variable {m : Nat} {q : Int}

/-- How far below a mantissa numbers still round to it, in steps of the mantissa. -/
def reachBelow (m : Nat) : ℚ := if m = Binary64.leadingBit then 1 / 4 else 1 / 2

theorem reachBelow_pos (m : Nat) : 0 < reachBelow m := by
  unfold reachBelow
  split <;> norm_num

theorem reachBelow_le (m : Nat) : reachBelow m ≤ 1 / 2 := by
  unfold reachBelow
  split <;> norm_num

/-- The interval of a double in steps of its mantissa. -/
def Reaches (m : Nat) (y : ℚ) : Prop :=
  if m % 2 = 0 then m - reachBelow m ≤ y ∧ y ≤ m + 1 / 2
  else m - reachBelow m < y ∧ y < m + 1 / 2

theorem Reaches.bounds {y : ℚ} (h : Reaches m y) : m - reachBelow m ≤ y ∧ y ≤ m + 1 / 2 := by
  unfold Reaches at h
  split at h
  · exact h
  · exact ⟨h.1.le, h.2.le⟩

theorem reaches_self (m : Nat) : Reaches m m := by
  have hreach := reachBelow_pos m
  unfold Reaches
  split
  · constructor <;> linarith
  · constructor <;> linarith

theorem of_div (q : Int) (a : Nat) : ((a * (Binary64.overPower 2 (2 - q) 1 1).1 : Nat) : ℚ) /
    (Binary64.overPower 2 (2 - q) 1 1).2 = a / 4 * 2 ^ q := by
  have hratio := Binary64.overPower_div two_pos (2 - q) 1 one_pos
  push_cast at hratio ⊢
  rw [mul_div_assoc, hratio, zpow_sub₀ two_ne_zero]
  field_simp
  norm_num

theorem number_of (m : Nat) (q : Int) : (Rounding.of m q).number = m * 2 ^ q := by
  have hnumber : (Rounding.of m q).number = ((4 * m : Nat) : ℚ) / 4 * 2 ^ q := of_div q (4 * m)
  rw [hnumber]
  push_cast
  ring

theorem highEnd_of (m : Nat) (q : Int) : (Rounding.of m q).highEnd = (m + 1 / 2) * 2 ^ q := by
  have hend : (Rounding.of m q).highEnd = ((4 * m + 2 : Nat) : ℚ) / 4 * 2 ^ q := of_div q (4 * m + 2)
  rw [hend]
  push_cast
  ring

theorem lowEnd_of (h : Binary64.IsNormal m q) (hq : -1074 < q) :
    (Rounding.of m q).lowEnd = (m - reachBelow m) * 2 ^ q := by
  have hm : 0 < m := Nat.lt_of_lt_of_le (by decide) h.le_mantissa
  have hend : (Rounding.of m q).lowEnd = ((if m = Binary64.leadingBit ∧ -1074 < q then 4 * m - 1
      else 4 * m - 2 : Nat) : ℚ) / 4 * 2 ^ q := of_div q _
  rw [hend, reachBelow]
  by_cases hleast : m = Binary64.leadingBit
  · rw [if_pos ⟨hleast, hq⟩, if_pos hleast, Nat.cast_sub (by omega)]
    push_cast
    ring
  · rw [if_neg fun hboth => hleast hboth.1, if_neg hleast, Nat.cast_sub (by omega)]
    push_cast
    ring

theorem contains_of_iff (h : Binary64.IsNormal m q) (hq : -1074 < q) (y : ℚ) :
    (Rounding.of m q).Contains (y * 2 ^ q) ↔ Reaches m y := by
  have hpos := Binary64.two_zpow_pos q
  have hclosed : (Rounding.of m q).closed = decide (m % 2 = 0) := rfl
  rw [Rounding.Contains, hclosed, highEnd_of, lowEnd_of h hq]
  simp only [decide_eq_true_eq, mul_le_mul_iff_left₀ hpos, mul_lt_mul_iff_left₀ hpos, Reaches]

theorem isProper_of (h : Binary64.IsNormal m q) (hq : -1074 < q) : (Rounding.of m q).IsProper where
  den_pos := Binary64.overPower_pos two_pos (2 - q) 1 one_pos
  contains_number := by
    rw [number_of, contains_of_iff h hq]
    exact reaches_self m

/-- A scaled integer that rounds to a mantissa of its own binade. -/
theorem isNearest_iff_reaches {y : ℚ} (hy : 2 ^ 52 ≤ y) : Binary64.IsNearest y m ↔ Reaches m y := by
  -- below the least mantissa lies another binade, so the shorter reach leaves nothing out
  have hreach : (m - reachBelow m ≤ y ↔ m - 1 / 2 ≤ y) ∧ (m - reachBelow m < y ↔ m - 1 / 2 < y) := by
    unfold reachBelow
    split
    · rename_i hleast
      rw [hleast, Binary64.cast_leadingBit]
      constructor
      · exact iff_of_true (by linarith) (by linarith)
      · exact iff_of_true (by linarith) (by linarith)
    · exact ⟨Iff.rfl, Iff.rfl⟩
  rw [Reaches, hreach.1, hreach.2]
  constructor
  · intro hnearest
    obtain ⟨hlow, hhigh⟩ := abs_le.mp hnearest.close
    split
    · constructor <;> linarith
    · rename_i hodd
      have hne : |y - m| ≠ 1 / 2 := mt hnearest.even hodd
      obtain ⟨hlow, hhigh⟩ := abs_lt.mp (lt_of_le_of_ne hnearest.close hne)
      constructor <;> linarith
  · intro hwithin
    split at hwithin
    · rename_i heven
      exact ⟨abs_le.mpr ⟨by linarith, by linarith⟩, fun _ => heven⟩
    · have hclose : |y - m| < 1 / 2 := abs_lt.mpr ⟨by linarith, by linarith⟩
      exact ⟨hclose.le, fun htie => absurd htie hclose.ne⟩

/-- Only the least mantissa reaches into the binade below, where the steps are half as long. -/
theorem Reaches.below {y : ℚ} (h : Binary64.IsNormal m q) (hy : Reaches m y) (hlt : y < 2 ^ 52) :
    m = Binary64.leadingBit ∧ 2 ^ 52 ≤ 2 * y ∧
      Binary64.IsNearest (2 * y) (2 * Binary64.leadingBit) := by
  have hlow := h.two_pow_le
  have hreach := reachBelow_le m
  obtain ⟨hends, -⟩ := hy.bounds
  have hm : (m : ℚ) < Binary64.leadingBit + 1 := by
    rw [Binary64.cast_leadingBit]
    linarith
  have hle : m < Binary64.leadingBit + 1 := by exact_mod_cast hm
  obtain rfl : m = Binary64.leadingBit := Nat.le_antisymm (by omega) h.le_mantissa
  rw [reachBelow, if_pos rfl, Binary64.cast_leadingBit] at hends
  refine ⟨rfl, by linarith, ?_, fun _ => by decide⟩
  push_cast
  rw [Binary64.cast_leadingBit]
  exact abs_le.mpr ⟨by linarith, by linarith⟩

theorem reaches_of_carry {y : ℚ} (h : Binary64.IsNearest (2 * y) (2 * Binary64.leadingBit))
    (hlt : 2 * y < 2 ^ 53) : Reaches Binary64.leadingBit y := by
  have hclose := (abs_le.mp h.close).1
  push_cast at hclose
  have hleading := Binary64.cast_leadingBit
  rw [Reaches, if_pos (by decide), reachBelow, if_pos rfl]
  constructor <;> linarith

/-- **An integer lies in the interval of a double exactly if it is read as this double.** -/
theorem contains_of_iff_ofRatio (h : Binary64.IsNormal m q) (hq : -1074 < q) {n : Nat}
    (hn : n ≠ 0) :
    (Rounding.of m q).Contains n ↔ Binary64.ofRatio n 1 = Binary64.pattern m q := by
  have hscale : (n : ℚ) = n / 2 ^ q * 2 ^ q :=
    (div_mul_cancel₀ _ (Binary64.two_zpow_pos q).ne').symm
  have hdouble : (n : ℚ) / 2 ^ (q - 1) = 2 * (n / 2 ^ q) := by
    rw [zpow_sub_one₀ two_ne_zero]
    field_simp
  have hcontains : (Rounding.of m q).Contains n ↔ Reaches m (n / 2 ^ q) := by
    rw [← contains_of_iff h hq, ← hscale]
  rw [Binary64.ofRatio_eq_pattern_iff hn h, hcontains, hdouble]
  constructor
  · intro hreach
    obtain hbelow | habove := lt_or_ge ((n : ℚ) / 2 ^ q) (2 ^ 52)
    · obtain ⟨hm, hlow, hnearest⟩ := hreach.below h hbelow
      have hbinade : Binary64.binade n = q - 1 := by
        apply Binary64.binade_eq hn
        · rwa [hdouble]
        · rw [hdouble]
          linarith
      exact .inr ⟨hm, hbinade, hnearest⟩
    · have hhigh := h.add_one_le
      have hbinade : Binary64.binade n = q :=
        Binary64.binade_eq hn habove (by linarith [hreach.bounds.2])
      exact .inl ⟨hbinade, (isNearest_iff_reaches habove).mpr hreach⟩
  · rintro (⟨hbinade, hnearest⟩ | ⟨rfl, hbinade, hnearest⟩)
    · have hscaled := (Binary64.scaled_binade hn).1
      rw [hbinade] at hscaled
      exact (isNearest_iff_reaches hscaled).mp hnearest
    · have hscaled := (Binary64.scaled_binade hn).2
      rw [hbinade, hdouble] at hscaled
      exact reaches_of_carry hnearest hscaled

/-- Nothing in the interval is negative or out of the double's binade. -/
theorem bounds_of_contains (h : Binary64.IsNormal m q) (hq : -1074 < q) {y : ℚ}
    (hy : (Rounding.of m q).Contains y) : 0 < y ∧ y < 2 ^ 53 * 2 ^ q := by
  have hpos := Binary64.two_zpow_pos q
  have hlow := h.two_pow_le
  have hhigh := h.add_one_le
  have hreach := reachBelow_le m
  rw [← div_mul_cancel₀ y hpos.ne', contains_of_iff h hq] at hy
  obtain ⟨hbelow, habove⟩ := hy.bounds
  have hends : 0 < y / 2 ^ q ∧ y / 2 ^ q < 2 ^ 53 := by
    constructor <;> linarith
  rw [div_pos_iff_of_pos_right hpos, div_lt_iff₀ hpos] at hends
  exact hends

theorem pow_two_le_pow_ten : ∀ t < 66, 2 ^ t ≤ 10 ^ (t * 30103 / 100000 + 1) := by decide

/-- No grid above the one where the search begins has a point in the interval. -/
theorem not_contains_above (h : Binary64.IsNormal m q) (hq : -1074 < q) {t : Nat}
    (ht : (t : Int) = q + (53 : Nat)) (hlt : t < 66) {j : Nat}
    (hj : t * 30103 / 100000 + 1 ≤ j) (c : Nat) :
    ¬(Rounding.of m q).Contains (c * 10 ^ (j : Int)) := by
  intro hcontains
  obtain ⟨hpos, hhigh⟩ := bounds_of_contains h hq hcontains
  have hpower : (2 : ℚ) ^ 53 * 2 ^ q = 2 ^ t := by
    rw [← zpow_natCast, ← zpow_natCast (2 : ℚ) t, ht, zpow_add₀ two_ne_zero, mul_comm]
  have htop : (2 : ℚ) ^ t ≤ 10 ^ j := by
    exact_mod_cast (pow_two_le_pow_ten t hlt).trans (Nat.pow_le_pow_right (by decide) hj)
  have hten : (0 : ℚ) < 10 ^ j := by positivity
  rw [zpow_natCast] at hpos hhigh
  have hc : (1 : ℚ) ≤ c := by
    have hc' : (0 : ℚ) < c := pos_of_mul_pos_left hpos hten.le
    exact_mod_cast hc'
  have hle : (10 : ℚ) ^ j ≤ c * 10 ^ j := le_mul_of_one_le_left hten.le hc
  linarith

/-- The decimal of a double that some integer of 64 bits is read as. -/
theorem shortest_of_contains (h : Binary64.IsNormal m q) (hlow : -52 ≤ q) (hhigh : q ≤ 12) {n : Nat}
    (hn : (Rounding.of m q).Contains n) :
    ∃ d k : Nat, 0 < d ∧ shortest .up m q = ⟨d, k⟩ ∧ ((Rounding.of m q).onGrid k).IsClosest d ∧
      ∀ j c : Nat, (Rounding.of m q).Contains (c * 10 ^ (j : Int)) → j ≤ k := by
  obtain ⟨t, ht⟩ := Int.eq_ofNat_of_zero_le (show 0 ≤ q + (53 : Nat) by omega)
  have hlt : t < 66 := by omega
  have hlog : m.log2 = 52 := by
    rw [Nat.log2_eq_iff (Nat.ne_of_gt (Nat.lt_of_lt_of_le (by decide) h.le_mantissa))]
    exact ⟨h.le_mantissa, h.mantissa_lt⟩
  have htop : ((m.log2 : Int) + q + 1) * 30103 / 100000 + 1 =
      (t * 30103 / 100000 + 1 : Nat) := by
    rw [hlog]
    omega
  have hunit : (Rounding.of m q).Contains (n * 10 ^ (0 : Int)) := by rwa [zpow_zero, mul_one]
  have hfound : IsCoarsest (Rounding.of m q) (t * 30103 / 100000 + 1 : Nat) (shortest .up m q) := by
    rw [shortest, if_neg (Nat.ne_of_gt (Nat.lt_of_lt_of_le (by decide) h.le_mantissa)), htop]
    exact isCoarsest_search (isProper_of h (by omega)) hunit (by omega) (by omega)
  obtain ⟨hle, hclosest, hcoarsest⟩ := hfound
  have hnonneg : 0 ≤ (shortest .up m q).exponent := by
    by_contra hneg
    exact hcoarsest 0 n (by omega) (by omega) hunit
  obtain ⟨k, hk⟩ := Int.eq_ofNat_of_zero_le hnonneg
  rw [hk] at hclosest
  have hpos : 0 < (shortest .up m q).digits := by
    have hcontains := (Rounding.contains_onGrid _ _ _).mp hclosest.contains
    have hprod := (bounds_of_contains h (by omega) hcontains).1
    exact_mod_cast pos_of_mul_pos_left hprod (zpow_nonneg (by norm_num) _)
  refine ⟨(shortest .up m q).digits, k, hpos, by rw [← hk], hclosest, ?_⟩
  intro j c hc
  by_contra hj
  obtain hbelow | habove := Nat.lt_or_ge j (t * 30103 / 100000 + 1)
  · exact hcoarsest j c (by omega) (by omega) hc
  · exact not_contains_above h (by omega) ht.symm hlt habove c hc

end

end ODataQuery.Decimal
