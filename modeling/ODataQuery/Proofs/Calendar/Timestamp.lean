import ODataQuery.Calendar.Timestamp
import ODataQuery.Proofs.Calendar.Date
import ODataQuery.Proofs.Text.Segment

namespace ODataQuery

namespace Decimal

theorem ofDigits_concat (cs : List Char) (c : Char) :
    ofDigits (cs ++ [c]) = ofDigits cs * 10 + digitValue c := by
  rw [ofDigits, List.foldl_append]
  rfl

theorem ofDigits_append_zeros (cs : List Char) (count : Nat) :
    ofDigits (cs ++ List.replicate count '0') = ofDigits cs * Nat.pow 10 count := by
  induction count with
  | zero =>
    rw [List.replicate_zero, List.append_nil]
    exact (Nat.mul_one _).symm
  | succ count ih =>
    rw [List.replicate_succ', ← List.append_assoc, ofDigits_concat, ih, Nat.mul_assoc]
    rfl

end Decimal

namespace Timestamp

theorem isDigit_digit (n : Nat) : (digit n).isDigit := by
  have hdigit : ∀ d < 10, (Char.ofNat (0x30 + d)).isDigit := by decide
  exact hdigit (n % 10) (Nat.mod_lt n (by decide))

theorem digitValue_digit (n : Nat) : Decimal.digitValue (digit n) = n % 10 := by
  have hvalue : ∀ d < 10, Decimal.digitValue (Char.ofNat (0x30 + d)) = d := by decide
  exact hvalue (n % 10) (Nat.mod_lt n (by decide))

@[simp] theorem length_fixed (width n : Nat) : (fixed width n).length = width := by
  induction width generalizing n with
  | zero => rfl
  | succ width ih => rw [fixed, List.length_append, ih, List.length_singleton]

theorem isDigit_of_mem_fixed {width n : Nat} {c : Char} (h : c ∈ fixed width n) : c.isDigit := by
  induction width generalizing n with
  | zero => cases h
  | succ width ih =>
    rw [fixed, List.mem_append, List.mem_singleton] at h
    obtain h | rfl := h
    · exact ih h
    · exact isDigit_digit n

theorem ofDigits_fixed (width n : Nat) :
    Decimal.ofDigits (fixed width n) = n % Nat.pow 10 width := by
  induction width generalizing n with
  | zero => exact (Nat.mod_one n).symm
  | succ width ih =>
    have hpow : Nat.pow 10 (width + 1) = 10 * Nat.pow 10 width := Nat.mul_comm _ _
    rw [fixed, Decimal.ofDigits_concat, ih, digitValue_digit, hpow, Nat.mod_mul, Nat.mul_comm,
      Nat.add_comm]

theorem fixed?_fixed (width : Nat) {n : Nat} (h : n < Nat.pow 10 width) (rest : List Char) :
    fixed? width (fixed width n ++ rest) = some (n, rest) := by
  have htake : (fixed width n ++ rest).take width = fixed width n :=
    List.take_left' (length_fixed width n)
  have hdrop : (fixed width n ++ rest).drop width = rest :=
    List.drop_left' (length_fixed width n)
  have hdigits : (fixed width n).all Char.isDigit :=
    List.all_eq_true.mpr fun _ => isDigit_of_mem_fixed
  rw [fixed?, htake, hdrop, if_pos ⟨length_fixed width n, hdigits⟩, ofDigits_fixed,
    Nat.mod_eq_of_lt h]

/-- A fraction of up to nine digits ends where no digit follows. -/
theorem fraction?_fixed {width n : Nat} (hwidth : 0 < width) (hnine : width ≤ 9)
    (h : n < Nat.pow 10 width) {rest : List Char} (hrest : ∀ c ∈ rest.head?, c.isDigit = false) :
    fraction? ('.' :: fixed width n ++ rest) =
      some (Fin.ofNat _ (n * Nat.pow 10 (9 - width)), rest) := by
  have hdigits : ∀ c ∈ fixed width n, c.isDigit := fun _ => isDigit_of_mem_fixed
  have hsome : (fixed width n).isEmpty = false := by
    rw [List.isEmpty_eq_false_iff_exists_mem]
    exact List.exists_mem_of_length_pos (by rwa [length_fixed])
  have hpadded : (fixed width n ++ List.replicate 9 '0').take 9 =
      fixed width n ++ List.replicate (9 - width) '0' := by
    rw [List.take_append, length_fixed, List.take_of_length_le (by simpa), List.take_replicate]
    congr 2
    omega
  rw [List.cons_append, fraction?]
  dsimp only
  rw [Text.takeWhile_append_of_stop hdigits hrest, Text.dropWhile_append_of_stop hdigits hrest,
    hsome, hpadded, Decimal.ofDigits_append_zeros, ofDigits_fixed, Nat.mod_eq_of_lt h]
  rfl

theorem fraction?_fractionText (nanosecond : Fin 1000000000) {c : Char} (rest : List Char)
    (hdigit : c.isDigit = false) (hpoint : c ≠ '.') :
    fraction? (fractionText nanosecond ++ c :: rest) = some (nanosecond, c :: rest) := by
  have hlt := nanosecond.isLt
  have hstop : ∀ d ∈ (c :: rest).head?, d.isDigit = false := by
    rintro d ⟨⟩
    exact hdigit
  -- the digits left out are zeros
  have hread (width : Nat) {n : Nat} (hwidth : 0 < width ∧ width ≤ 9)
      (hn : n < Nat.pow 10 width) (hwhole : n * Nat.pow 10 (9 - width) = nanosecond.val) :
      fraction? ('.' :: fixed width n ++ c :: rest) = some (nanosecond, c :: rest) := by
    rw [fraction?_fixed hwidth.1 hwidth.2 hn hstop, hwhole]
    exact congrArg (fun n => some (n, c :: rest)) (Fin.ext (Nat.mod_eq_of_lt hlt))
  unfold fractionText
  split
  · next hzero =>
    rw [List.nil_append, fraction?]
    · rw [show nanosecond = 0 from Fin.ext hzero]
    · rintro cs ⟨⟩
      exact hpoint rfl
  · split
    · exact hread 3 (by decide) (show _ < 1000 by omega) (show _ * 1000000 = _ by omega)
    · split
      · exact hread 6 (by decide) (show _ < 1000000 by omega) (show _ * 1000 = _ by omega)
      · exact hread 9 (by decide) hlt (Nat.mul_one _)

theorem offset?_sign {sign : Char} (hsign : sign = '+' ∨ sign = '-') {n : Nat} (h : n < 1440) :
    offset? (sign :: fixed 2 (n / 60) ++ ':' :: fixed 2 (n % 60)) =
      some (if sign = '+' then (n : Int) else -n) := by
  have hminute := fixed?_fixed 2 (show n % 60 < 100 by omega) []
  rw [List.append_nil] at hminute
  have hzulu : ¬(sign = 'Z' ∨ sign = 'z') := by
    obtain rfl | rfl := hsign
    · decide
    · decide
  have hmark : sign = '+' ∨ sign = '-' ∨ sign = '\u2212' := hsign.imp_right .inl
  have hn : (n / 60 : Nat) * 60 + (n % 60 : Nat) = (n : Int) := by omega
  rw [List.cons_append, offset?, if_neg hzulu, if_pos hmark,
    fixed?_fixed 2 (show n / 60 < 100 by omega)]
  simp only [Option.bind_eq_bind, Option.bind_some, mark?, beq_self_eq_true, ↓reduceIte, hminute]
  rw [if_pos ⟨rfl, by omega, by omega⟩, hn]

theorem offset?_offsetText {offset : Int} (h : offset.natAbs < 1440) :
    offset? (offsetText offset) = some offset := by
  unfold offsetText
  split
  · next hzero =>
    rw [hzero]
    rfl
  · split
    · rw [offset?_sign (.inr rfl) h, if_neg (by decide)]
      congr 1
      omega
    · rw [offset?_sign (.inl rfl) h, if_pos rfl]
      congr 1
      omega

theorem exists_offsetText (offset : Int) :
    ∃ c rest, offsetText offset = c :: rest ∧ c.isDigit = false ∧ c ≠ '.' := by
  unfold offsetText
  split
  · exact ⟨'Z', [], rfl, by decide, by decide⟩
  · split
    · exact ⟨'-', _, rfl, by decide, by decide⟩
    · exact ⟨'+', _, rfl, by decide, by decide⟩

/-- The year that a count of minutes falls in. -/
def yearOf (minute : Int) : Int := (Date.ofDays (minute / 1440)).year

/-- Date and time with every number in its width are read number by number. -/
theorem parse?_fields {year month day hour minute second : Nat} (hyear : year < 10000)
    (hmonth : month < 100) (hday : day < 100) (hhour : hour < 100) (hminute : minute < 100)
    (hsecond : second < 100) {behind rest : List Char} {nanosecond : Fin 1000000000} {offset : Int}
    (hfraction : fraction? behind = some (nanosecond, rest)) (hoffset : offset? rest = some offset) :
    parse? (String.ofList (fixed 4 year ++ '-' :: fixed 2 month ++ '-' :: fixed 2 day ++
      'T' :: fixed 2 hour ++ ':' :: fixed 2 minute ++ ':' :: fixed 2 second ++ behind)) =
      ofLocal? ⟨year, month, day⟩ hour minute second nanosecond offset := by
  simp only [parse?, String.toList_ofList, List.append_assoc, List.cons_append,
    fixed?_fixed 4 hyear, fixed?_fixed 2 hmonth, fixed?_fixed 2 hday, fixed?_fixed 2 hhour,
    fixed?_fixed 2 hminute, fixed?_fixed 2 hsecond, mark?, beq_self_eq_true, Bool.true_or,
    ↓reduceIte, hfraction, hoffset, Option.bind_eq_bind, Option.bind_some]

/-- **A clock is read back** when its year has four digits, with whatever fraction and
offset stand behind it. -/
theorem parse?_clockText {minute : Int} (hyear : 0 ≤ yearOf minute ∧ yearOf minute ≤ 9999)
    (second : Fin 61) {behind rest : List Char} {nanosecond : Fin 1000000000} {offset : Int}
    (hfraction : fraction? behind = some (nanosecond, rest)) (hoffset : offset? rest = some offset)
    (h : offset.natAbs < 1440) :
    parse? (String.ofList (clockText minute second ++ behind)) =
      some ⟨⟨minute - offset, second, nanosecond⟩, offset, h⟩ := by
  have hvalid := Date.isValid_ofDays (minute / 1440)
  have hdays := Date.toDays_ofDays (minute / 1440)
  unfold yearOf at hyear
  unfold clockText
  dsimp only
  generalize Date.ofDays (minute / 1440) = date at hyear hvalid hdays ⊢
  obtain ⟨hmonth, hday⟩ := Date.lt_of_isValid hvalid
  have hdate : (⟨(date.year.toNat : Int), date.month, date.day⟩ : Date) = date := by
    rw [Int.toNat_of_nonneg hyear.1]
  have hclock : date.toDays * 1440 + ((minute % 1440).toNat / 60 : Nat) * 60 +
      ((minute % 1440).toNat % 60 : Nat) = minute := by
    omega
  rw [yearText, if_pos hyear, parse?_fields (by omega) hmonth hday (by omega) (by omega)
    (by omega) hfraction hoffset, hdate, ofLocal?, dif_pos ⟨hvalid, by omega, by omega, by omega, h⟩,
    hclock]

/-- The year in the calendar of the timestamp's own offset. -/
def localYear (t : Timestamp) : Int := yearOf (t.instant.minute + t.offset)

/-- **A timestamp is read back from its text** when that shows its year in four digits. -/
theorem parse?_localText {t : Timestamp} (h : 0 ≤ t.localYear ∧ t.localYear ≤ 9999) :
    parse? t.localText = some t := by
  obtain ⟨c, rest, hoffset, hdigit, hpoint⟩ := exists_offsetText t.offset
  have hread := offset?_offsetText t.offset_lt
  have hfraction := fraction?_fractionText t.instant.nanosecond rest hdigit hpoint
  rw [← hoffset] at hfraction
  rw [localText, List.append_assoc, parse?_clockText h _ hfraction hread t.offset_lt,
    Int.add_sub_cancel]

end Timestamp

end ODataQuery
