import ODataQuery.Proofs.Number.Integer
import ODataQuery.Proofs.Text.Word
import ODataQuery.Text.Blank

namespace ODataQuery

namespace Decimal

theorem ofDigits_eq (cs : List Char) : ofDigits cs = Nat.ofDigitChars 10 cs 0 := by
  rw [ofDigits, Nat.ofDigitChars]
  congr 1
  funext n c
  rw [Nat.mul_comm]
  rfl

theorem digitChar_digitValue {c : Char} (h : c.isDigit) :
    digitValue c < 10 ∧ Nat.digitChar (digitValue c) = c := by
  have hc := Text.isDigit_iff.mp h
  have hlt : digitValue c < 10 := by
    unfold digitValue
    omega
  refine ⟨hlt, Char.toNat_inj.mp ?_⟩
  rw [Nat.toNat_digitChar_of_lt_ten hlt]
  unfold digitValue
  omega

/-- Digits behind the numeral of a number above zero make a longer numeral. -/
theorem numeral_append {n : Nat} (hn : 0 < n) {cs : List Char} (h : ∀ c ∈ cs, c.isDigit) :
    numeral n ++ cs = numeral (Nat.ofDigitChars 10 cs n) := by
  induction cs generalizing n with
  | nil => rw [List.append_nil, Nat.ofDigitChars_nil]
  | cons c cs ih =>
    obtain ⟨hc, hcs⟩ := List.forall_mem_cons.mp h
    obtain ⟨hlt, hchar⟩ := digitChar_digitValue hc
    have hnext : numeral n ++ [c] = numeral (10 * n + digitValue c) := by
      have happend := Nat.toDigits_append_toDigits (b := 10) (by decide) hn hlt
      rwa [Nat.toDigits_of_lt_base hlt, hchar] at happend
    calc numeral n ++ c :: cs
      _ = (numeral n ++ [c]) ++ cs := by simp
      _ = numeral (10 * n + digitValue c) ++ cs := by rw [hnext]
      _ = numeral (Nat.ofDigitChars 10 cs (10 * n + digitValue c)) := ih (by omega) hcs
      _ = numeral (Nat.ofDigitChars 10 (c :: cs) n) := by rw [Nat.ofDigitChars_cons]; rfl

/-- Digits without leading zeros are the numeral of the number that they write. -/
theorem numeral_ofDigitChars {cs : List Char} (hne : cs ≠ []) (h : ∀ c ∈ cs, c.isDigit)
    (hzero : cs.head? = some '0' → cs = ['0']) : numeral (Nat.ofDigitChars 10 cs 0) = cs := by
  cases cs with
  | nil => exact absurd rfl hne
  | cons c cs =>
    by_cases hc : c = '0'
    · subst hc
      rw [hzero rfl]
      rfl
    · obtain ⟨hdigit, hcs⟩ := List.forall_mem_cons.mp h
      obtain ⟨hlt, hchar⟩ := digitChar_digitValue hdigit
      have hpos : 0 < digitValue c := by
        apply Nat.pos_of_ne_zero
        intro hvalue
        rw [hvalue] at hchar
        exact hc hchar.symm
      have hone : numeral (digitValue c) = [c] := by
        rw [numeral, Nat.toDigits_of_lt_base hlt, hchar]
      rw [Nat.ofDigitChars_cons, Nat.mul_zero, Nat.zero_add]
      change numeral (Nat.ofDigitChars 10 cs (digitValue c)) = _
      rw [← numeral_append hpos hcs, hone, List.singleton_append]

/-- Only the numeral of zero begins with a zero. -/
theorem numeral_head {n : Nat} (h : (numeral n).head? = some '0') : numeral n = ['0'] := by
  induction n using Nat.strongRecOn with
  | ind n ih =>
    by_cases hn : n < 10
    · have hone : numeral n = [Nat.digitChar n] := Nat.toDigits_of_lt_base hn
      rw [hone, List.head?_cons, Option.some.injEq] at h
      rw [hone, h]
    · -- the leading digit is that of the tenth
      have hstep : numeral n = numeral (n / 10) ++ [Nat.digitChar (n % 10)] :=
        Nat.toDigits_of_base_le (by decide) (by omega)
      obtain ⟨c, cs, hcs⟩ := List.exists_cons_of_ne_nil
        (Nat.toDigits_ne_nil : numeral (n / 10) ≠ [])
      have hhead : (numeral (n / 10)).head? = some '0' := by
        rw [hstep, numeral, hcs] at h
        rw [numeral, hcs]
        exact h
      have htenth : numeral (n / 10) = numeral 0 := ih (n / 10) (by omega) hhead
      have hzero := numeral_inj htenth
      omega

end Decimal

namespace Integer

/-- Text that spells an integer: one sign or none, then decimal digits, at least one. -/
inductive Spells : List Char → Int → Prop where
  | plain {digits : List Char} (hne : digits ≠ []) (hdigits : ∀ c ∈ digits, c.isDigit) :
    Spells digits (Nat.ofDigitChars 10 digits 0)
  | plus {digits : List Char} (hne : digits ≠ []) (hdigits : ∀ c ∈ digits, c.isDigit) :
    Spells ('+' :: digits) (Nat.ofDigitChars 10 digits 0)
  | minus {digits : List Char} (hne : digits ≠ []) (hdigits : ∀ c ∈ digits, c.isDigit) :
    Spells ('-' :: digits) (-(Nat.ofDigitChars 10 digits 0 : Int))

theorem unsigned?_eq_some {cs : List Char} {n : Nat} : unsigned? cs = some n ↔
    cs ≠ [] ∧ (∀ c ∈ cs, c.isDigit) ∧ Nat.ofDigitChars 10 cs 0 = n := by
  rw [unsigned?, Option.ite_none_right_eq_some, Option.some.injEq, Decimal.ofDigits_eq,
    List.all_eq_true, and_assoc]

theorem parse?_minus (cs : List Char) :
    parse? ('-' :: cs) = (unsigned? cs).map fun n : Nat => -(n : Int) := by
  rw [parse?]
  cases unsigned? cs <;> rfl

theorem parse?_plus (cs : List Char) :
    parse? ('+' :: cs) = (unsigned? cs).map fun n : Nat => (n : Int) := by
  rw [parse?]
  cases unsigned? cs <;> rfl

theorem parse?_of_ne {cs : List Char} (hminus : ∀ ds, cs ≠ '-' :: ds)
    (hplus : ∀ ds, cs ≠ '+' :: ds) :
    parse? cs = (unsigned? cs).map fun n : Nat => (n : Int) := by
  rw [parse?.eq_3 cs hminus hplus]
  cases unsigned? cs <;> rfl

/-- **What is read as an integer is what spells it.** -/
theorem parse?_eq_some {cs : List Char} {n : Int} : parse? cs = some n ↔ Spells cs n := by
  constructor
  · intro h
    by_cases hminus : ∃ ds, cs = '-' :: ds
    · obtain ⟨ds, rfl⟩ := hminus
      rw [parse?_minus] at h
      obtain ⟨m, hm, rfl⟩ := Option.map_eq_some_iff.mp h
      obtain ⟨hne, hdigits, rfl⟩ := unsigned?_eq_some.mp hm
      exact .minus hne hdigits
    · by_cases hplus : ∃ ds, cs = '+' :: ds
      · obtain ⟨ds, rfl⟩ := hplus
        rw [parse?_plus] at h
        obtain ⟨m, hm, rfl⟩ := Option.map_eq_some_iff.mp h
        obtain ⟨hne, hdigits, rfl⟩ := unsigned?_eq_some.mp hm
        exact .plus hne hdigits
      · rw [parse?_of_ne (not_exists.mp hminus) (not_exists.mp hplus)] at h
        obtain ⟨m, hm, rfl⟩ := Option.map_eq_some_iff.mp h
        obtain ⟨hne, hdigits, rfl⟩ := unsigned?_eq_some.mp hm
        exact .plain hne hdigits
  · intro h
    cases h with
    | plain hne hdigits =>
      have hmark : ∀ c, c.isDigit = false → ∀ ds, cs ≠ c :: ds := by
        rintro c hc ds rfl
        rw [hdigits c List.mem_cons_self] at hc
        cases hc
      rw [parse?_of_ne (hmark '-' rfl) (hmark '+' rfl),
        unsigned?_eq_some.mpr ⟨hne, hdigits, rfl⟩, Option.map_some]
    | plus hne hdigits =>
      rw [parse?_plus, unsigned?_eq_some.mpr ⟨hne, hdigits, rfl⟩, Option.map_some]
    | minus hne hdigits =>
      rw [parse?_minus, unsigned?_eq_some.mpr ⟨hne, hdigits, rfl⟩, Option.map_some]

theorem isWord_toInt (n : Int64) : isWord n.toInt := by
  have hlow := n.le_toInt
  have hhigh := n.toInt_lt
  rw [isWord, Bool.and_eq_true, decide_eq_true_eq, decide_eq_true_eq]
  omega

theorem word?_eq_some {cs : List Char} {n : Int} :
    word? cs = some n ↔ Spells cs n ∧ isWord n := by
  rw [word?, Option.filter_eq_some_iff, parse?_eq_some]

/-- The canonical numeral of an integer: the digits of its magnitude, the first of them no
zero unless it is the only one, behind a minus sign if the integer is negative. -/
def IsNumeral (cs : List Char) (n : Int) : Prop :=
  ∃ digits : List Char, digits ≠ [] ∧ (∀ c ∈ digits, c.isDigit) ∧
    (digits.head? = some '0' → digits = ['0']) ∧ Nat.ofDigitChars 10 digits 0 = n.natAbs ∧
    cs = (if n < 0 then ['-'] else []) ++ digits

/-- **Each integer has one canonical numeral,** its written text. -/
theorem isNumeral_iff {cs : List Char} {n : Int} : IsNumeral cs n ↔ cs = (toText n).toList := by
  rw [toList_toText]
  constructor
  · rintro ⟨digits, hne, hdigits, hzero, hvalue, rfl⟩
    rw [← hvalue, Decimal.numeral_ofDigitChars hne hdigits hzero]
  · intro h
    exact ⟨Decimal.numeral n.natAbs, Nat.toDigits_ne_nil, fun _ => Decimal.isDigit_of_mem_numeral,
      Decimal.numeral_head, Nat.ofDigitChars_ten_toDigits, h⟩

theorem toText_not_blank (n : Int) : ∀ c ∈ (toText n).toList, Text.isBlank c = false := by
  intro c hc
  have hchar := List.all_eq_true.mp (toText_all n) c hc
  rw [Bool.or_eq_true, beq_iff_eq] at hchar
  obtain hdigit | rfl := hchar
  · have hc := Text.isDigit_iff.mp hdigit
    simp only [Text.isBlank, Bool.or_eq_false_iff, Bool.and_eq_false_iff, decide_eq_false_iff_not,
      beq_eq_false_iff_ne]
    omega
  · rfl

theorem spells_toText (n : Int) : Spells (toText n).toList n := by
  have hvalue : (Nat.ofDigitChars 10 (Decimal.numeral n.natAbs) 0 : Int) = n.natAbs :=
    congrArg Nat.cast Nat.ofDigitChars_ten_toDigits
  have hne : Decimal.numeral n.natAbs ≠ [] := Nat.toDigits_ne_nil
  have hdigits : ∀ c ∈ Decimal.numeral n.natAbs, c.isDigit :=
    fun _ => Decimal.isDigit_of_mem_numeral
  rw [toList_toText]
  by_cases hn : n < 0
  · have hminus := Spells.minus hne hdigits
    rw [hvalue, show -(n.natAbs : Int) = n by omega] at hminus
    rwa [if_pos hn]
  · have hplain := Spells.plain hne hdigits
    rw [hvalue, show (n.natAbs : Int) = n by omega] at hplain
    rwa [if_neg hn]

end Integer

end ODataQuery
