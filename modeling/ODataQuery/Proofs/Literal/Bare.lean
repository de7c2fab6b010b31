import ODataQuery.Literal
import ODataQuery.Proofs.Number.Integer
import ODataQuery.Proofs.Outcome
import ODataQuery.Proofs.Text.Word

namespace ODataQuery

/-- A letter, a digit, or a sign of numbers and dates. -/
def isBare (c : Char) : Bool := c.isAlphanum || c == '+' || c == '-' || c == '.' || c == ':'

theorem isBare_of_isDigit {c : Char} (h : c.isDigit) : isBare c := by
  simp [isBare, Char.isAlphanum, h]

namespace Decimal

theorem numeral_bare (n : Nat) : (numeral n).all isBare := by
  rw [List.all_eq_true]
  intro c hc
  exact isBare_of_isDigit (isDigit_of_mem_numeral hc)

theorem zeros_bare (n : Nat) : (List.replicate n '0').all isBare := by
  rw [List.all_eq_true]
  intro c hc
  obtain rfl := List.eq_of_mem_replicate hc
  decide

theorem positional_bare (d : Decimal) : d.positional.all isBare := by
  have hnumeral := numeral_bare d.digits
  unfold positional
  split
  · simp only [List.all_append, hnumeral, zeros_bare, Bool.and_self]
  · rename_i n _
    rw [← List.take_append_drop ((numeral d.digits).length - (n + 1)) (numeral d.digits),
      List.all_append, Bool.and_eq_true] at hnumeral
    dsimp only
    split
    · rw [List.all_append, List.all_cons, hnumeral.1, hnumeral.2]
      decide
    · simp only [List.all_append, List.all_cons, numeral_bare, zeros_bare]
      decide

theorem positional_ne_nil (d : Decimal) : d.positional ≠ [] := by
  have hnumeral : numeral d.digits ≠ [] := Nat.toDigits_ne_nil
  unfold positional
  split
  · exact List.append_ne_nil_of_left_ne_nil hnumeral _
  · dsimp only
    split
    · exact List.append_ne_nil_of_right_ne_nil _ (List.cons_ne_nil _ _)
    · exact List.cons_ne_nil _ _

end Decimal

theorem Integer.toText_bare (n : Int) : (Integer.toText n).toList.all isBare := by
  simp only [Integer.toText, String.toList_ofList, List.all_append, Decimal.numeral_bare]
  split <;> decide

theorem Binary64.toText_bare (x : Binary64) : x.toText.toList.all isBare := by
  have hsign : x.sign.all isBare := by
    unfold sign
    split <;> decide
  unfold toText
  split
  · simp only [String.toList_ofList, List.all_append, hsign, Decimal.positional_bare, Bool.and_self]
  · simp only [String.toList_ofList, List.all_append, hsign]
    decide
  · decide

theorem Binary64.toText_ne_nil (x : Binary64) : x.toText.toList ≠ [] := by
  unfold toText
  split
  · rw [String.toList_ofList]
    exact List.append_ne_nil_of_right_ne_nil _ (Decimal.positional_ne_nil _)
  · rw [String.toList_ofList]
    exact List.append_ne_nil_of_right_ne_nil _ (List.cons_ne_nil _ _)
  · decide

namespace Timestamp

theorem digit_bare (n : Nat) : isBare (digit n) := by
  have hdigits : ∀ d < 10, isBare (Char.ofNat (0x30 + d)) := by decide
  exact hdigits (n % 10) (Nat.mod_lt n (by decide))

theorem fixed_bare (width n : Nat) : (fixed width n).all isBare := by
  induction width generalizing n with
  | zero => rfl
  | succ width ih => simp [fixed, ih, digit_bare]

theorem yearText_bare (year : Int) : (yearText year).all isBare := by
  unfold yearText
  split
  · exact fixed_bare 4 _
  · have hsign : isBare (if year < 0 then '-' else '+') := by split <;> decide
    rw [List.all_cons, hsign, Bool.true_and]
    split
    · exact fixed_bare 4 _
    · exact Decimal.numeral_bare _

theorem clockText_bare (minute : Int) (second : Nat) : (clockText minute second).all isBare := by
  simp only [clockText, List.all_append, List.all_cons, yearText_bare, fixed_bare]
  decide

theorem utcText_bare (t : Timestamp) : t.utcText.toList.all isBare := by
  simp only [utcText, String.toList_ofList, List.all_append, List.all_cons, clockText_bare,
    fixed_bare]
  decide

theorem utcText_ne_nil (t : Timestamp) : t.utcText.toList ≠ [] := by
  rw [utcText, String.toList_ofList]
  exact List.append_ne_nil_of_right_ne_nil _ (List.cons_ne_nil _ _)

end Timestamp

namespace DataType

theorem isHexDigit_bare {c : Char} (h : isHexDigit c) : isBare c := by
  simp only [isHexDigit, Bool.or_eq_true, Bool.and_eq_true, decide_eq_true_eq, Char.le_def,
    UInt32.le_iff_toNat_le] at h
  have halphanum : c.isAlphanum := by
    rw [Char.isAlphanum, Bool.or_eq_true, Text.isAlpha_iff]
    obtain (hdigit | ⟨hlow, hhigh⟩) | ⟨hlow, hhigh⟩ := h
    · exact .inr hdigit
    · exact .inl (.inr ⟨hlow, Nat.le_trans hhigh (by decide)⟩)
    · exact .inl (.inl ⟨hlow, Nat.le_trans hhigh (by decide)⟩)
  simp [isBare, halphanum]

theorem guid_bare {s : String} (h : isGuid s) : s.toList.all isBare := by
  simp only [isGuid, Bool.and_eq_true, List.all_eq_true] at h
  have hjoin : ['-'].intercalate (s.toList.splitOn '-') = s.toList := List.intercalate_splitOn '-'
  rw [← hjoin]
  refine Text.all_intercalate (by decide) fun group hgroup => ?_
  rw [List.all_eq_true]
  exact fun c hc => isHexDigit_bare (h.2 group hgroup c hc)

theorem guid_ne_nil {s : String} (h : isGuid s) : s.toList ≠ [] := by
  intro hnil
  rw [isGuid, hnil] at h
  exact absurd h (by decide)

/-- Whether a literal of the type stands in quotes. -/
def isQuoted : DataType → Bool
  | .string | .time | .binary => true
  | _ => false

/-- The texts that a declared type writes without quotes. -/
inductive IsUnquoted : String → Prop where
  | null : IsUnquoted "null"
  | truth (b : Bool) : IsUnquoted (Value.bool b).display
  | integer (n : Int) : IsUnquoted (Integer.toText n)
  | double (x : Binary64) : IsUnquoted x.toText
  | guid {s : String} (h : isGuid s) : IsUnquoted s
  | date (d : Timestamp) : IsUnquoted d.utcText

theorem isUnquoted_of_bounded {type : DataType} {low high : Int} {v : Value} {t : String}
    (h : type.bounded low high v = .ok t) : IsUnquoted t := by
  simp only [bounded, bind_eq_ok] at h
  obtain ⟨n, -, h⟩ := h
  split at h
  · cases h
    exact .integer n
  · cases h

theorem isUnquoted_of_finite {type : DataType} {x : Binary64} {t : String}
    (h : type.finite x = .ok t) : IsUnquoted t := by
  unfold finite at h
  split at h
  · cases h
    exact .double x
  · cases h

theorem isUnquoted_of_number {type : DataType} {v : Value} {t : String}
    (h : type.number v = .ok t) : IsUnquoted t := by
  cases v with
  | int n =>
    cases h
    exact .integer _
  | float x => exact isUnquoted_of_finite h
  | string s =>
    simp only [number] at h
    split at h
    · exact isUnquoted_of_finite h
    · cases h
  | null | bool | list | timestamp => cases h

theorem isUnquoted_of_scalarForm {type : DataType} {v : Value} {t : String}
    (hdate : type.isDate = false) (hquoted : type.isQuoted = false) (hdeclared : type ≠ .undefined)
    (h : type.scalarForm v = .ok t) : IsUnquoted t := by
  cases type with
  | string | time | binary => cases hquoted
  | dateTime | dateTimeOffset => cases hdate
  | undefined => exact absurd rfl hdeclared
  | int16 | int32 | int64 | byte => exact isUnquoted_of_bounded h
  | decimal | double | single => exact isUnquoted_of_number h
  | boolean =>
    cases v with
    | bool b =>
      cases h
      exact .truth b
    | string s =>
      simp only [scalarForm] at h
      split at h
      · rename_i htruth
        cases h
        obtain rfl | rfl := htruth
        · exact .truth true
        · exact .truth false
      · cases h
    | null | int | float | list | timestamp => cases h
  | guid =>
    cases v with
    | string s =>
      simp only [scalarForm] at h
      split at h
      · rename_i hguid
        cases h
        exact .guid hguid
      · cases h
    | null | bool | int | float | list | timestamp => cases h

theorem isUnquoted_of_literal {type : DataType} {v : Value} {t : String}
    (hquoted : type.isQuoted = false) (hdeclared : type ≠ .undefined)
    (h : type.literal v = .ok t) : IsUnquoted t := by
  unfold literal at h
  split at h
  · split at h
    · cases h
      exact .null
    · obtain ⟨d, -, rfl⟩ := map_eq_ok.mp h
      exact .date d
  · rename_i hdate
    unfold longForm at h
    split at h
    · cases h
      exact .null
    · cases h
    · exact isUnquoted_of_scalarForm (by simpa using hdate) hquoted hdeclared h

theorem IsUnquoted.bare {t : String} (h : IsUnquoted t) : t.toList.all isBare := by
  cases h with
  | null => decide
  | truth b => cases b <;> decide
  | integer n => exact Integer.toText_bare n
  | double x => exact x.toText_bare
  | guid hguid => exact guid_bare hguid
  | date d => exact d.utcText_bare

theorem IsUnquoted.ne_nil {t : String} (h : IsUnquoted t) : t.toList ≠ [] := by
  cases h with
  | null => decide
  | truth b => cases b <;> decide
  | integer n => exact Integer.toText_ne_nil n
  | double x => exact x.toText_ne_nil
  | guid hguid => exact guid_ne_nil hguid
  | date d => exact d.utcText_ne_nil

/-- A declared type without quotes writes nothing but bare characters. -/
theorem literal_bare {type : DataType} {v : Value} {t : String} (hquoted : type.isQuoted = false)
    (hdeclared : type ≠ .undefined) (h : type.literal v = .ok t) : t.toList.all isBare :=
  (isUnquoted_of_literal hquoted hdeclared h).bare

end DataType

end ODataQuery
