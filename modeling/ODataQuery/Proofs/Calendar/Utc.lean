import Mathlib.Data.List.Induction
import ODataQuery.Proofs.Calendar.Timestamp
import ODataQuery.Proofs.Text.Word

namespace ODataQuery

namespace Instant

/-- The instant without the digits below its millisecond. -/
def toMillisecond (i : Instant) : Instant :=
  ⟨i.minute, i.second, i.nanosecond.val / 1000000 * 1000000, by omega⟩

/-- Nanoseconds on a clock that shows a second 60 as the second behind it. -/
def elapsed (i : Instant) : Int :=
  (i.minute * 60 + (i.second.val : Int)) * 1000000000 + (i.nanosecond.val : Int)

/-- Two instants a millisecond or more apart. A second 60 is an instant of its own, so it is
apart from every other second, even if the clock shows both as one. -/
def Apart (i j : Instant) : Prop :=
  1000000 ≤ (i.elapsed - j.elapsed).natAbs ∨ ¬(i.second.val = 60 ↔ j.second.val = 60)

theorem toMillisecond_eq_iff {i j : Instant} : i.toMillisecond = j.toMillisecond ↔
    i.minute = j.minute ∧ i.second = j.second ∧
      i.nanosecond.val / 1000000 = j.nanosecond.val / 1000000 := by
  simp only [toMillisecond, Instant.mk.injEq, Fin.mk.injEq]
  constructor
  · rintro ⟨hminute, hsecond, hnanosecond⟩
    exact ⟨hminute, hsecond, by omega⟩
  · rintro ⟨hminute, hsecond, hnanosecond⟩
    exact ⟨hminute, hsecond, by omega⟩

theorem toMillisecond_toMillisecond (i : Instant) :
    i.toMillisecond.toMillisecond = i.toMillisecond := by
  rw [toMillisecond_eq_iff]
  exact ⟨rfl, rfl, Nat.mul_div_cancel _ (by decide)⟩

theorem Apart.toMillisecond_ne {i j : Instant} (h : i.Apart j) :
    i.toMillisecond ≠ j.toMillisecond := by
  rw [Ne, toMillisecond_eq_iff]
  rintro ⟨hminute, hsecond, hnanosecond⟩
  obtain hfar | hleap := h
  · unfold elapsed at hfar
    rw [hminute, hsecond] at hfar
    omega
  · rw [hsecond] at hleap
    exact hleap Iff.rfl

end Instant

namespace Timestamp

/-- A text with every digit made a zero. -/
def masked (cs : List Char) : List Char := cs.map fun c => if c.isDigit then '0' else c

/-- Year, month, day, hour, minute, second and millisecond, all with their leading zeros. -/
def HasUtcShape (s : String) : Prop := masked s.toList = "0000-00-00T00:00:00.000Z".toList

theorem toList_shape : "0000-00-00T00:00:00.000Z".toList =
    List.replicate 4 '0' ++ '-' :: (List.replicate 2 '0' ++ '-' :: (List.replicate 2 '0' ++
      'T' :: (List.replicate 2 '0' ++ ':' :: (List.replicate 2 '0' ++
        ':' :: (List.replicate 2 '0' ++ '.' :: (List.replicate 3 '0' ++ ['Z'])))))) := rfl

theorem masked_fixed (width n : Nat) : masked (fixed width n) = List.replicate width '0' := by
  rw [List.eq_replicate_iff]
  constructor
  · rw [masked, List.length_map, length_fixed]
  · intro c hc
    obtain ⟨d, hd, rfl⟩ := List.mem_map.mp hc
    rw [if_pos (isDigit_of_mem_fixed hd)]

variable {t u : Timestamp}

/-- The year in the calendar of UTC. -/
def utcYear (t : Timestamp) : Int := yearOf t.instant.minute

theorem hasUtcShape_utcText (h : 0 ≤ t.utcYear ∧ t.utcYear ≤ 9999) : HasUtcShape t.utcText := by
  have hpart (width n : Nat) :
      (fixed width n).map (fun c => if c.isDigit then '0' else c) = List.replicate width '0' :=
    masked_fixed width n
  unfold utcYear yearOf at h
  rw [HasUtcShape, utcText, String.toList_ofList, clockText, yearText, if_pos h, masked]
  simp only [List.map_append, List.map_cons, List.map_nil, hpart]
  rfl

/-- **The text in UTC spells the instant to the millisecond,** without an offset. -/
theorem parse?_utcText (h : 0 ≤ t.utcYear ∧ t.utcYear ≤ 9999) :
    parse? t.utcText = some ⟨t.instant.toMillisecond, 0, by decide⟩ := by
  have hlt := t.instant.nanosecond.isLt
  have hstop : ∀ c ∈ ['Z'].head?, c.isDigit = false := by
    rintro c ⟨⟩
    rfl
  have hfraction := fraction?_fixed (by decide) (by decide)
    (show t.instant.nanosecond.val / 1000000 < Nat.pow 10 3 by change _ < 1000; omega) hstop
  have hread := parse?_clockText h t.instant.second hfraction (show offset? ['Z'] = some 0 from rfl)
    (show Int.natAbs 0 < 1440 by decide)
  have hnanosecond : Fin.ofNat 1000000000 (t.instant.nanosecond.val / 1000000 * Nat.pow 10 (9 - 3)) =
      t.instant.toMillisecond.nanosecond :=
    Fin.ext (Nat.mod_eq_of_lt t.instant.toMillisecond.nanosecond.isLt)
  rw [hnanosecond, Int.sub_zero] at hread
  rw [utcText, List.append_assoc, hread]
  rfl

theorem utcText_eq_of_toMillisecond (h : t.instant.toMillisecond = u.instant.toMillisecond) :
    t.utcText = u.utcText := by
  obtain ⟨hminute, hsecond, hnanosecond⟩ := Instant.toMillisecond_eq_iff.mp h
  rw [utcText, utcText, hminute, hsecond, hnanosecond]

/-- **Two texts in UTC are the same exactly if they show the same millisecond.** -/
theorem utcText_eq_iff (ht : 0 ≤ t.utcYear ∧ t.utcYear ≤ 9999)
    (hu : 0 ≤ u.utcYear ∧ u.utcYear ≤ 9999) :
    t.utcText = u.utcText ↔ t.instant.toMillisecond = u.instant.toMillisecond := by
  constructor
  · intro h
    have hread := parse?_utcText ht
    rw [h, parse?_utcText hu, Option.some.injEq, Timestamp.mk.injEq] at hread
    exact hread.1.symm
  · exact utcText_eq_of_toMillisecond

theorem fixed_ofDigits {cs : List Char} (h : ∀ c ∈ cs, c.isDigit) :
    fixed cs.length (Decimal.ofDigits cs) = cs := by
  induction cs using List.reverseRecOn with
  | nil => rfl
  | append_singleton cs c ih =>
    obtain ⟨hcs, hc⟩ := List.forall_mem_append.mp h
    have hdigit := Text.isDigit_iff.mp (hc c (List.mem_singleton_self c))
    have hvalue : Decimal.digitValue c < 10 ∧ 0x30 + Decimal.digitValue c = c.toNat := by
      unfold Decimal.digitValue
      omega
    have htens : (Decimal.ofDigits cs * 10 + Decimal.digitValue c) / 10 = Decimal.ofDigits cs := by
      omega
    have hones : (Decimal.ofDigits cs * 10 + Decimal.digitValue c) % 10 = Decimal.digitValue c := by
      omega
    rw [List.length_append, List.length_singleton, fixed, Decimal.ofDigits_concat, htens, ih hcs,
      digit, hones, hvalue.2, Char.ofNat_toNat]

theorem ofDigits_lt {cs : List Char} (h : ∀ c ∈ cs, c.isDigit) :
    Decimal.ofDigits cs < Nat.pow 10 cs.length := by
  rw [← fixed_ofDigits h, ofDigits_fixed, length_fixed]
  exact Nat.mod_lt _ (Nat.pow_pos (by decide))

/-- Zeros in the shape are the digits of a number. -/
theorem exists_fixed_of_masked (width : Nat) {cs rest : List Char}
    (h : masked cs = List.replicate width '0' ++ rest) :
    ∃ n < Nat.pow 10 width, ∃ behind, cs = fixed width n ++ behind ∧ masked behind = rest := by
  obtain ⟨digits, behind, rfl, hdigits, hbehind⟩ := List.map_eq_append_iff.mp h
  obtain ⟨hlength, hzero⟩ := List.eq_replicate_iff.mp hdigits
  rw [List.length_map] at hlength
  have hall : ∀ c ∈ digits, c.isDigit := by
    intro c hc
    have hmasked := hzero _ (List.mem_map_of_mem hc)
    split at hmasked
    · assumption
    · rw [hmasked]
      rfl
  refine ⟨Decimal.ofDigits digits, ?_, behind, ?_, hbehind⟩
  · rw [← hlength]
    exact ofDigits_lt hall
  · rw [← hlength, fixed_ofDigits hall]

/-- Any other character in the shape is itself. -/
theorem exists_of_masked_cons {cs rest : List Char} {c : Char} (hc : c ≠ '0')
    (h : masked cs = c :: rest) : ∃ behind, cs = c :: behind ∧ masked behind = rest := by
  obtain ⟨d, behind, rfl, hd, hrest⟩ := List.map_eq_cons_iff.mp h
  refine ⟨behind, ?_, hrest⟩
  split at hd
  · exact absurd hd.symm hc
  · rw [hd]

theorem exists_field_of_masked {c : Char} (hc : c ≠ '0') (width : Nat) {cs rest : List Char}
    (h : masked cs = c :: (List.replicate width '0' ++ rest)) :
    ∃ n < Nat.pow 10 width, ∃ behind, cs = c :: (fixed width n ++ behind) ∧ masked behind = rest := by
  obtain ⟨cs, rfl, hcs⟩ := exists_of_masked_cons hc h
  obtain ⟨n, hn, behind, rfl, hbehind⟩ := exists_fixed_of_masked width hcs
  exact ⟨n, hn, behind, rfl, hbehind⟩

/-- A text of the shape has a number in each of its places. -/
theorem exists_of_hasUtcShape {s : String} (h : HasUtcShape s) :
    ∃ year < 10000, ∃ month < 100, ∃ day < 100, ∃ hour < 100, ∃ minute < 100, ∃ second < 100,
      ∃ millisecond < 1000, s = String.ofList (fixed 4 year ++ '-' :: fixed 2 month ++
        '-' :: fixed 2 day ++ 'T' :: fixed 2 hour ++ ':' :: fixed 2 minute ++ ':' :: fixed 2 second ++
        ('.' :: fixed 3 millisecond ++ ['Z'])) := by
  rw [HasUtcShape, toList_shape] at h
  obtain ⟨year, hyear, _, hs, h⟩ := exists_fixed_of_masked 4 h
  obtain ⟨month, hmonth, _, rfl, hmonths⟩ := exists_field_of_masked (by decide) 2 h
  obtain ⟨day, hday, _, rfl, hdays⟩ := exists_field_of_masked (by decide) 2 hmonths
  obtain ⟨hour, hhour, _, rfl, hhours⟩ := exists_field_of_masked (by decide) 2 hdays
  obtain ⟨minute, hminute, _, rfl, hminutes⟩ := exists_field_of_masked (by decide) 2 hhours
  obtain ⟨second, hsecond, _, rfl, hseconds⟩ := exists_field_of_masked (by decide) 2 hminutes
  obtain ⟨millisecond, hmillisecond, _, rfl, hfraction⟩ :=
    exists_field_of_masked (by decide) 3 hseconds
  obtain ⟨_, rfl, hzulu⟩ := exists_of_masked_cons (by decide) hfraction
  obtain rfl := List.map_eq_nil_iff.mp hzulu
  refine ⟨year, hyear, month, hmonth, day, hday, hour, hhour, minute, hminute, second, hsecond,
    millisecond, hmillisecond, ?_⟩
  apply String.toList_inj.mp
  rw [hs, String.toList_ofList]
  simp only [List.append_assoc, List.cons_append]

/-- What the local calendar says of an instant. -/
theorem of_ofLocal? {date : Date} {hour minute second : Nat} {nanosecond : Fin 1000000000}
    {offset : Int} (h : ofLocal? date hour minute second nanosecond offset = some t) :
    (date.isValid ∧ hour ≤ 23 ∧ minute ≤ 59) ∧
      t.instant.minute = date.toDays * 1440 + hour * 60 + minute - offset ∧
      t.instant.second.val = second ∧ t.instant.nanosecond = nanosecond := by
  rw [ofLocal?] at h
  split at h
  · rename_i hvalid
    cases h
    exact ⟨⟨hvalid.1, hvalid.2.1, hvalid.2.2.1⟩, rfl, rfl, rfl⟩
  · cases h

/-- The clock shows the date and the time that the minute was counted from. -/
theorem clockText_of_date {date : Date} (hdate : date.isValid) {hour minute : Nat} (hhour : hour ≤ 23)
    (hminute : minute ≤ 59) (second : Nat) :
    clockText (date.toDays * 1440 + hour * 60 + minute) second =
      yearText date.year ++ '-' :: fixed 2 date.month ++ '-' :: fixed 2 date.day ++
        'T' :: fixed 2 hour ++ ':' :: fixed 2 minute ++ ':' :: fixed 2 second := by
  have hdays : (date.toDays * 1440 + hour * 60 + minute) / 1440 = date.toDays := by omega
  have htime : ((date.toDays * 1440 + hour * 60 + minute) % 1440).toNat = hour * 60 + minute := by
    omega
  have hhours : (hour * 60 + minute) / 60 = hour := by omega
  have hminutes : (hour * 60 + minute) % 60 = minute := by omega
  rw [clockText, hdays, htime, hhours, hminutes, Date.ofDays_toDays hdate]

/-- **A date that has the shape is its own text in UTC.** -/
theorem utcText_of_hasUtcShape {s : String} (hs : parse? s = some t) (h : HasUtcShape s) :
    t.utcText = s := by
  obtain ⟨year, hyear, month, hmonth, day, hday, hour, hhour, minute, hminute, second, hsecond,
    millisecond, hmillisecond, rfl⟩ := exists_of_hasUtcShape h
  have hstop : ∀ c ∈ ['Z'].head?, c.isDigit = false := by
    rintro c ⟨⟩
    rfl
  have hfraction := fraction?_fixed (show 0 < 3 by decide) (by decide) hmillisecond hstop
  rw [parse?_fields hyear hmonth hday hhour hminute hsecond hfraction
    (show offset? ['Z'] = some 0 from rfl)] at hs
  obtain ⟨⟨hdate, hhour, hminute⟩, hinstant, rfl, hnanosecond⟩ := of_ofLocal? hs
  have hyears : yearText (year : Int) = fixed 4 year := by
    rw [yearText, if_pos (by omega), Int.toNat_natCast]
  have hthousandth : t.instant.nanosecond.val / 1000000 = millisecond := by
    have hvalue : t.instant.nanosecond.val = millisecond * 1000000 := by
      rw [hnanosecond]
      exact Nat.mod_eq_of_lt (by change _ * 1000000 < _; omega)
    rw [hvalue, Nat.mul_div_cancel _ (by decide)]
  rw [utcText, hinstant, Int.sub_zero, clockText_of_date hdate hhour hminute, hyears, hthousandth,
    List.append_assoc]

end Timestamp

end ODataQuery
