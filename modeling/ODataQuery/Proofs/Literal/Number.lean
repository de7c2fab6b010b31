import ODataQuery.Literal
import ODataQuery.Proofs.Number.Printing
import ODataQuery.Proofs.Number.Reading
import ODataQuery.Proofs.Text.Blank

/-!
# Decimal literals

An integer is written with every digit. Its numeral, given as text, is read as a double first,
so what is written is the integer by which this double is printed. The two are the same for
all integers up to `2 ^ 53` and part for most of the larger ones.
-/

namespace ODataQuery.DataType

theorem natAbs_lt (n : Int64) : n.toInt.natAbs < 2 ^ 64 := by
  have hlow := n.le_toInt
  have hhigh := n.toInt_lt
  omega

/-- A decimal that is given as the numeral of an integer passes through the integer's double. -/
theorem longForm_decimal_numeral (n : Int64) :
    longForm .decimal (.string (Integer.toText n.toInt)) =
      .ok (Binary64.ofInt n.toInt).toText := by
  have hstrip := Text.strip_eq_self_of_forall (Integer.toText_not_blank n.toInt)
  have hfinite : (Binary64.ofInt n.toInt).isFinite := Binary64.isFinite_ofInt (natAbs_lt n)
  change number .decimal (.string (Integer.toText n.toInt)) = _
  rw [number, hstrip, Binary64.parse?_toText]
  dsimp only
  rw [finite, if_pos hfinite]

/-- **What becomes of an integer as a decimal.** Given as an integer it is written with every
digit. Given as text it is written as the one integer by which its double is printed. So both
literals agree if and only if this is the integer itself, as it is up to `2 ^ 53`. -/
theorem decimal_of_numeral (n : Int64) :
    longForm .decimal (.int n) = .ok (Integer.toText n.toInt) ∧
    (∃ s, (Binary64.ofInt n.toInt).IsPrinted s ∧
      longForm .decimal (.string (Integer.toText n.toInt)) = .ok (Integer.toText s)) ∧
    (longForm .decimal (.string (Integer.toText n.toInt)) = longForm .decimal (.int n) ↔
      (Binary64.ofInt n.toInt).IsPrinted n.toInt) ∧
    (n.toInt.natAbs ≤ 2 ^ 53 →
      longForm .decimal (.string (Integer.toText n.toInt)) = longForm .decimal (.int n)) := by
  obtain ⟨s, htext, hprinted⟩ := Binary64.toText_ofInt (natAbs_lt n)
  have hint : longForm .decimal (.int n) = .ok (Integer.toText n.toInt) := rfl
  refine ⟨hint, ⟨s, hprinted, ?_⟩, ?_, ?_⟩
  · rw [longForm_decimal_numeral, htext]
  · rw [longForm_decimal_numeral, htext, hint, Except.ok.injEq]
    constructor
    · intro h
      have hs : s = n.toInt := Integer.toText_inj (congrArg String.toList h)
      rwa [hs] at hprinted
    · intro h
      rw [hprinted.unique h]
  · intro hle
    rw [longForm_decimal_numeral, Binary64.toText_ofInt_of_le hle, hint]

/-- The first positive integer whose last digit is lost in its text. -/
theorem decimal_loses_digit :
    Integer.toText (Int64.toInt 9007199254740993) = "9007199254740993" ∧
      longForm .decimal (.int 9007199254740993) = .ok "9007199254740993" ∧
      longForm .decimal (.string "9007199254740993") = .ok "9007199254740992" := ⟨rfl, rfl, rfl⟩

/-- A power of two loses no bit as a double and still is not printed as itself. -/
example : longForm .decimal (.string "1152921504606846976") = .ok "1152921504606847000" := rfl

end ODataQuery.DataType
