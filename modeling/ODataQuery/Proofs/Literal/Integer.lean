import ODataQuery.Proofs.Literal.Refusal
import ODataQuery.Proofs.Number.Numeral
import ODataQuery.Proofs.Text.Blank

namespace ODataQuery

/-- The integer that a value is or that its trimmed text spells. -/
inductive Value.Denotes : Value → Int → Prop where
  | int (n : Int64) : Denotes (.int n) n.toInt
  | text {s : String} {n : Int} (h : Integer.Spells (Text.trim s).toList n) : Denotes (.string s) n

/-- An integer or a text. -/
def Value.IsIntegerOrText (v : Value) : Prop := (∃ n, v = .int n) ∨ ∃ s, v = .string s

namespace DataType

/-- The least and the greatest number of an integer type. -/
def integerRange : DataType → Option (Int × Int)
  | .int16 => some (-32768, 32767)
  | .int32 => some (-2147483648, 2147483647)
  | .int64 => some (-9223372036854775808, 9223372036854775807)
  | .byte => some (0, 255)
  | _ => none

variable {type : DataType} {low high : Int} {v : Value}

theorem isWord_of_integerRange (htype : type.integerRange = some (low, high)) {n : Int}
    (hlow : low ≤ n) (hhigh : n ≤ high) : Integer.isWord n := by
  unfold integerRange at htype
  simp only [Integer.isWord, Bool.and_eq_true, decide_eq_true_eq]
  split at htype
  · cases htype
    omega
  · cases htype
    omega
  · cases htype
    omega
  · cases htype
    omega
  · cases htype

theorem longForm_eq_bounded (htype : type.integerRange = some (low, high))
    (hv : v.IsIntegerOrText) : type.longForm v = type.bounded low high v := by
  have hform : type.longForm v = type.scalarForm v := by
    obtain ⟨n, rfl⟩ | ⟨s, rfl⟩ := hv
    · rfl
    · rfl
  rw [hform]
  cases type with
  | int16 | int32 | int64 | byte =>
    cases htype
    rfl
  | string | decimal | double | single | boolean | dateTime | dateTimeOffset | time | guid
  | binary | undefined => cases htype

theorem integer_eq_ok (hv : v.IsIntegerOrText) {n : Int} :
    type.integer v = .ok n ↔ v.Denotes n ∧ Integer.isWord n := by
  obtain ⟨m, rfl⟩ | ⟨s, rfl⟩ := hv
  · rw [integer, Except.ok.injEq]
    constructor
    · rintro rfl
      exact ⟨.int m, Integer.isWord_toInt m⟩
    · rintro ⟨⟨⟩, -⟩
      rfl
  · rw [integer]
    constructor
    · intro h
      split at h
      · rename_i m hm
        cases h
        obtain ⟨hspells, hword⟩ := Integer.word?_eq_some.mp hm
        exact ⟨.text (by rwa [Text.toList_trim]), hword⟩
      · cases h
    · rintro ⟨hdenotes, hword⟩
      cases hdenotes with
      | text hspells =>
        rw [Text.toList_trim] at hspells
        rw [Integer.word?_eq_some.mpr ⟨hspells, hword⟩]

theorem bounded_eq_ok {t : String} : type.bounded low high v = .ok t ↔
    ∃ n, type.integer v = .ok n ∧ (low ≤ n ∧ n ≤ high) ∧ t = Integer.toText n := by
  simp only [bounded, bind_eq_ok]
  constructor
  · rintro ⟨n, hn, h⟩
    split at h
    · rename_i hrange
      cases h
      exact ⟨n, hn, hrange, rfl⟩
    · cases h
  · rintro ⟨n, hn, hrange, rfl⟩
    exact ⟨n, hn, if_pos hrange⟩

/-- The numeral that an integer is written by denotes it. -/
theorem denotes_toText (n : Int) : (Value.string (Integer.toText n)).Denotes n := by
  have htrim : Text.trim (Integer.toText n) = Integer.toText n := by
    apply String.toList_inj.mp
    rw [Text.toList_trim]
    exact Text.strip_eq_self_of_forall (Integer.toText_not_blank n)
  apply Value.Denotes.text
  rw [htrim]
  exact Integer.spells_toText n

/-- **Integer literals are exact.** An integer type writes a value, given as an integer or as
text, if and only if it denotes an integer of the type's range, and then by the canonical
numeral of this integer. Every other value is refused as invalid for the type. A literal that
is given as text again is written unchanged. -/
theorem integer_literal_exact (htype : type.integerRange = some (low, high))
    (hv : v.IsIntegerOrText) :
    (∀ t, type.longForm v = .ok t ↔
      ∃ n, v.Denotes n ∧ (low ≤ n ∧ n ≤ high) ∧ Integer.IsNumeral t.toList n) ∧
    ((¬∃ n, v.Denotes n ∧ low ≤ n ∧ n ≤ high) →
      ∃ text, type.longForm v = .error (.invalidValue type.name text)) ∧
    ∀ t, type.longForm v = .ok t → type.longForm (.string t) = .ok t := by
  have hwritten {w : Value} (hw : w.IsIntegerOrText) (t : String) : type.longForm w = .ok t ↔
      ∃ n, w.Denotes n ∧ (low ≤ n ∧ n ≤ high) ∧ Integer.IsNumeral t.toList n := by
    rw [longForm_eq_bounded htype hw, bounded_eq_ok]
    constructor
    · rintro ⟨n, hn, hrange, rfl⟩
      exact ⟨n, ((integer_eq_ok hw).mp hn).1, hrange, Integer.isNumeral_iff.mpr rfl⟩
    · rintro ⟨n, hn, hrange, ht⟩
      have hword := isWord_of_integerRange htype hrange.1 hrange.2
      exact ⟨n, (integer_eq_ok hw).mpr ⟨hn, hword⟩, hrange,
        String.toList_inj.mp (Integer.isNumeral_iff.mp ht)⟩
  refine ⟨hwritten hv, ?_, ?_⟩
  · intro hnone
    cases h : type.longForm v with
    | ok t =>
      obtain ⟨n, hn, hrange, -⟩ := (hwritten hv t).mp h
      exact absurd ⟨n, hn, hrange⟩ hnone
    | error e =>
      obtain ⟨text, rfl⟩ := longForm_fails type v e h
      exact ⟨text, rfl⟩
  · intro t h
    obtain ⟨n, -, hrange, ht⟩ := (hwritten hv t).mp h
    obtain rfl := String.toList_inj.mp (Integer.isNumeral_iff.mp ht)
    exact (hwritten (.inr ⟨_, rfl⟩) _).mpr ⟨n, denotes_toText n, hrange, ht⟩

/-- The least number of 64 bits, spelled with blanks around it and zeros in front. -/
theorem integer_literal_leastWord :
    integerRange .int64 = some (-9223372036854775808, 9223372036854775807) ∧
      (Value.string "\u2003-0009223372036854775808\n").IsIntegerOrText ∧
      longForm .int64 (.string "\u2003-0009223372036854775808\n") = .ok "-9223372036854775808" ∧
      longForm .int64 (.string "-9223372036854775808") = .ok "-9223372036854775808" := by
  have hrange : integerRange .int64 = some (-9223372036854775808, 9223372036854775807) := rfl
  have hform : (Value.string "\u2003-0009223372036854775808\n").IsIntegerOrText := .inr ⟨_, rfl⟩
  obtain ⟨hwritten, -, hagain⟩ := integer_literal_exact hrange hform
  have hdenotes : (Value.string "\u2003-0009223372036854775808\n").Denotes
      (-9223372036854775808) := .text (Integer.parse?_eq_some.mp rfl)
  have hleast := (hwritten "-9223372036854775808").mpr
    ⟨_, hdenotes, by decide, Integer.isNumeral_iff.mpr rfl⟩
  exact ⟨hrange, hform, hleast, hagain _ hleast⟩

/-- An unsigned type takes zero with a minus sign, but nothing below or above its range. -/
example : longForm .byte (.string "-0") = .ok "0" ∧
    longForm .byte (.int 256) = .error (.invalidValue "Byte" "256") := ⟨rfl, rfl⟩

end DataType

end ODataQuery
