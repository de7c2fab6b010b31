import ODataQuery.Calendar.Date

/-!
# Days and their dates

Every day has a date of the calendar, and the date gives the day back. Inside an era of four
hundred years the year of a day is a quotient by 365, once the leap days before it are
taken out. Taking them out keeps the order of days, so it is enough to look at the first and
the last day of each year. As years follow one another without a gap, no two dates share a day.
-/

namespace ODataQuery.Date

/-- The first day of a year within its era. -/
def firstDay (year : Nat) : Nat := 365 * year + year / 4 - year / 100

/-- A day of an era, counted without the leap days up to it. -/
def commonDay (day : Nat) : Nat := day - day / 1460 + day / 36524 - day / 146096

theorem commonDay_le {day later : Nat} (h : day ≤ later) : commonDay day ≤ commonDay later := by
  induction h with
  | refl => exact Nat.le_refl _
  | step _ ih =>
    refine Nat.le_trans ih ?_
    unfold commonDay
    omega

theorem commonDay_of_year : ∀ year < 400,
    365 * year ≤ commonDay (firstDay year) ∧
      commonDay (firstDay (year + 1) - 1) < 365 * (year + 1) := by
  decide +kernel

theorem year_lt {day : Nat} (h : day < 146097) : commonDay day / 365 < 400 := by
  have hlast : commonDay 146096 = 145999 := by decide
  have hle := commonDay_le (show day ≤ 146096 by omega)
  omega

theorem firstDay_le {day : Nat} (h : day < 146097) : firstDay (commonDay day / 365) ≤ day := by
  cases hyear : commonDay day / 365 with
  | zero => exact Nat.zero_le _
  | succ year =>
    have hlt := year_lt h
    obtain ⟨-, hend⟩ := commonDay_of_year year (by omega)
    refine Nat.le_of_not_lt fun hday => ?_
    have hle := commonDay_le (show day ≤ firstDay (year + 1) - 1 by omega)
    omega

/-- Whether the year that begins in this March ends with a leap day. -/
def EndsLeap (year : Nat) : Prop := (year + 1) % 4 = 0 ∧ ((year + 1) % 100 ≠ 0 ∨ year = 399)

instance (year : Nat) : Decidable (EndsLeap year) := inferInstanceAs (Decidable (_ ∧ _))

theorem firstDay_succ {year : Nat} (h : year < 399) :
    firstDay (year + 1) = firstDay year + if EndsLeap year then 366 else 365 := by
  unfold firstDay
  by_cases hfour : (year + 1) % 4 = 0
  · have hquarter : (year + 1) / 4 = year / 4 + 1 := by omega
    by_cases hhundred : (year + 1) % 100 = 0
    · have hcommon : ¬EndsLeap year := fun hleap => by
        obtain hcentury | hlast := hleap.2
        · exact hcentury hhundred
        · omega
      rw [if_neg hcommon]
      omega
    · have hcentury : (year + 1) / 100 = year / 100 := by omega
      have hleap : EndsLeap year := ⟨hfour, .inl hhundred⟩
      rw [if_pos hleap]
      omega
  · have hquarter : (year + 1) / 4 = year / 4 := by omega
    have hcentury : (year + 1) / 100 = year / 100 := by omega
    have hcommon : ¬EndsLeap year := fun hleap => hfour hleap.1
    rw [if_neg hcommon]
    omega

theorem day_lt {day : Nat} (h : day < 146097) :
    day < firstDay (commonDay day / 365) + if EndsLeap (commonDay day / 365) then 366 else 365 := by
  have hlt := year_lt h
  generalize hyear : commonDay day / 365 = year at *
  by_cases hlast : year = 399
  · subst hlast
    have hleap : EndsLeap 399 := by decide
    have hfirst : firstDay 399 = 145731 := by decide
    rw [if_pos hleap]
    omega
  · obtain ⟨hstart, -⟩ := commonDay_of_year (year + 1) (by omega)
    rw [← firstDay_succ (by omega)]
    refine Nat.lt_of_not_le fun hday => ?_
    have hle := commonDay_le hday
    omega

/-- The day on which a year begins in March. -/
def startOf (year : Int) : Int := 365 * year + year / 4 - year / 100 + year / 400

/-- The date of a day of a year that begins in March. -/
def ofYearDay (year : Int) (day : Nat) : Date :=
  let month := (5 * day + 2) / 153
  let dayOfMonth := day - (153 * month + 2) / 5 + 1
  if month < 10 then ⟨year, month + 3, dayOfMonth⟩ else ⟨year + 1, month - 9, dayOfMonth⟩

theorem toDays_ofYearDay (year : Int) {day : Nat} (h : day < 366) :
    (ofYearDay year day).toDays = startOf year + day := by
  have hbefore : (153 * ((5 * day + 2) / 153) + 2) / 5 ≤ day := by omega
  have hmonth : (5 * day + 2) / 153 < 12 := by omega
  unfold ofYearDay startOf
  dsimp only
  generalize (5 * day + 2) / 153 = month at hbefore hmonth ⊢
  by_cases hsame : month < 10
  · have hback : (month + 3 + 9) % 12 = month := by omega
    rw [if_pos hsame, toDays]
    dsimp only
    rw [hback, if_neg (by omega)]
    omega
  · have hback : (month - 9 + 9) % 12 = month := by omega
    rw [if_neg hsame, toDays]
    dsimp only
    rw [hback, if_pos (by omega), Int.add_sub_cancel]
    omega

theorem isValid_ofYearDay (year : Int) {day : Nat}
    (h : day < if isLeap (year + 1) then 366 else 365) : (ofYearDay year day).isValid := by
  have hday : day < 366 := by split at h <;> omega
  unfold ofYearDay
  dsimp only
  by_cases hsame : (5 * day + 2) / 153 < 10
  · rw [if_pos hsame]
    simp only [isValid, monthLength, Bool.and_eq_true, decide_eq_true_eq]
    refine ⟨⟨⟨by omega, by omega⟩, by omega⟩, ?_⟩
    rw [if_neg (by omega)]
    split
    · omega
    · omega
  · rw [if_neg hsame]
    simp only [isValid, monthLength, Bool.and_eq_true, decide_eq_true_eq]
    refine ⟨⟨⟨by omega, by omega⟩, by omega⟩, ?_⟩
    split
    · split at h
      · rename_i hleap
        rw [if_pos hleap]
        omega
      · rename_i hleap
        rw [if_neg hleap]
        omega
    · rw [if_neg (by omega)]
      omega

theorem isLeap_era (year : Nat) (era : Int) (hyear : year < 400) :
    isLeap (year + era * 400 + 1) = true ↔ EndsLeap year := by
  simp only [isLeap, EndsLeap, Bool.and_eq_true, Bool.or_eq_true, decide_eq_true_eq, bne_iff_ne]
  omega

/-- A day by its year and its day in it. -/
theorem exists_year (days : Int) : ∃ (year : Int) (day : Nat),
    (day < if isLeap (year + 1) then 366 else 365) ∧
      days = startOf year + day ∧ ofDays days = ofYearDay year day := by
  have hday : (days % 146097).toNat < 146097 := by omega
  have hstart := firstDay_le hday
  have hend := day_lt hday
  have hlt := year_lt hday
  refine ⟨(commonDay (days % 146097).toNat / 365 : Nat) + days / 146097 * 400,
    (days % 146097).toNat - firstDay (commonDay (days % 146097).toNat / 365), ?_, ?_, rfl⟩
  · simp only [isLeap_era _ (days / 146097) hlt]
    generalize firstDay (commonDay (days % 146097).toNat / 365) = first at *
    omega
  · generalize commonDay (days % 146097).toNat / 365 = year at *
    generalize hera : days / 146097 = era
    have hfour : ((year : Int) + era * 400) / 4 = year / 4 + era * 100 := by omega
    have hhundred : ((year : Int) + era * 400) / 100 = year / 100 + era * 4 := by omega
    have hfourHundred : ((year : Int) + era * 400) / 400 = era := by omega
    rw [startOf, hfour, hhundred, hfourHundred]
    unfold firstDay at *
    omega

/-- **The date of a day is a date of the calendar.** -/
theorem isValid_ofDays (days : Int) : (ofDays days).isValid := by
  obtain ⟨year, day, hday, -, hdate⟩ := exists_year days
  rw [hdate]
  exact isValid_ofYearDay year hday

/-- Two digits are enough for a month and for a day. -/
theorem lt_of_isValid {date : Date} (h : date.isValid) :
    date.month < 100 ∧ date.day < 100 := by
  simp only [isValid, Bool.and_eq_true, decide_eq_true_eq] at h
  have hlength : monthLength date.year date.month ≤ 31 := by
    unfold monthLength
    split
    · split <;> decide
    · split <;> decide
  omega

/-- **The date of a day gives the day back.** -/
theorem toDays_ofDays (days : Int) : (ofDays days).toDays = days := by
  obtain ⟨year, day, hday, hdays, hdate⟩ := exists_year days
  rw [hdate, toDays_ofYearDay year (by split at hday <;> omega), ← hdays]

/-- A year ends where the next one begins. -/
theorem startOf_succ (year : Int) :
    startOf (year + 1) = startOf year + (if isLeap (year + 1) then 366 else 365 : Nat) := by
  have hleap : isLeap (year + 1) = true ↔
      (year + 1) % 4 = 0 ∧ ((year + 1) % 100 ≠ 0 ∨ (year + 1) % 400 = 0) := by
    simp only [isLeap, Bool.and_eq_true, Bool.or_eq_true, decide_eq_true_eq, bne_iff_ne]
  unfold startOf
  split
  · rename_i h
    rw [hleap] at h
    omega
  · rename_i h
    rw [hleap] at h
    omega

theorem startOf_le {year later : Int} (h : year ≤ later) : startOf year ≤ startOf later := by
  unfold startOf
  omega

/-- The last day that a month can have. -/
def longest (month : Nat) : Nat :=
  if month = 2 then 29 else if month = 4 ∨ month = 6 ∨ month = 9 ∨ month = 11 then 30 else 31

theorem monthLength_le (year : Int) (month : Nat) : monthLength year month ≤ longest month := by
  unfold monthLength longest
  split
  · split <;> decide
  · exact Nat.le_refl _

/-- Counted from March on, no month is longer than up to where the next one begins. -/
theorem longest_le : ∀ month < 10,
    (153 * month + 2) / 5 + longest (month + 3) ≤ (153 * (month + 1) + 2) / 5 := by
  decide

theorem longest_le_of_next : ∀ month < 12, 10 ≤ month →
    (153 * month + 2) / 5 + longest (month - 9) ≤ (153 * (month + 1) + 2) / 5 := by
  decide

theorem ofYearDay_of_month (year : Int) {month day : Nat} (hday : 1 ≤ day)
    (hlength : (153 * month + 2) / 5 + day ≤ (153 * (month + 1) + 2) / 5) :
    ofYearDay year ((153 * month + 2) / 5 + day - 1) =
      if month < 10 then ⟨year, month + 3, day⟩ else ⟨year + 1, month - 9, day⟩ := by
  have hback : (5 * ((153 * month + 2) / 5 + day - 1) + 2) / 153 = month := by omega
  have hrest : (153 * month + 2) / 5 + day - 1 - (153 * month + 2) / 5 + 1 = day := by omega
  unfold ofYearDay
  dsimp only
  rw [hback, hrest]

/-- Every date of the calendar is that of a day of a year that begins in March. -/
theorem exists_ofYearDay {date : Date} (h : date.isValid) : ∃ (year : Int) (day : Nat),
    (day < if isLeap (year + 1) then 366 else 365) ∧ date = ofYearDay year day := by
  obtain ⟨year, month, day⟩ := date
  simp only [isValid, Bool.and_eq_true, decide_eq_true_eq] at h
  obtain ⟨⟨⟨hfirst, hlast⟩, hday⟩, hlength⟩ := h
  have hlongest := monthLength_le year month
  by_cases hsame : month < 3
  · have hnext := longest_le_of_next (month + 9) (by omega) (by omega)
    rw [Nat.add_sub_cancel] at hnext
    refine ⟨year - 1, (153 * (month + 9) + 2) / 5 + day - 1, ?_, ?_⟩
    · rw [Int.sub_add_cancel]
      obtain rfl | rfl : month = 1 ∨ month = 2 := by omega
      · split <;> omega
      · rw [monthLength, if_pos rfl] at hlength
        split
        · rename_i hleap
          rw [if_pos hleap] at hlength
          omega
        · rename_i hcommon
          rw [if_neg hcommon] at hlength
          omega
    · rw [ofYearDay_of_month _ hday (by omega), if_neg (by omega), Int.sub_add_cancel,
        Nat.add_sub_cancel]
  · obtain ⟨month, rfl⟩ : ∃ m, month = m + 3 := ⟨month - 3, by omega⟩
    have hnext := longest_le month (by omega)
    refine ⟨year, (153 * month + 2) / 5 + day - 1, ?_, ?_⟩
    · split <;> omega
    · rw [ofYearDay_of_month _ hday (by omega), if_pos (by omega)]

/-- **The day of a date gives the date back.** -/
theorem ofDays_toDays {date : Date} (h : date.isValid) : ofDays date.toDays = date := by
  obtain ⟨year, day, hday, rfl⟩ := exists_ofYearDay h
  obtain ⟨year', day', hday', hdays, hdate⟩ := exists_year (ofYearDay year day).toDays
  rw [toDays_ofYearDay year (by split at hday <;> omega)] at hdays
  have hend := startOf_succ year
  have hend' := startOf_succ year'
  have hyear : year' = year := by
    obtain hlt | heq | hgt := Int.lt_trichotomy year' year
    · have hle := startOf_le (show year' + 1 ≤ year from hlt)
      omega
    · exact heq
    · have hle := startOf_le (show year + 1 ≤ year' from hgt)
      omega
  subst hyear
  have hsame : day' = day := by omega
  rw [hdate, hsame]

end ODataQuery.Date
