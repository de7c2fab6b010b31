import ODataQuery.Number.Integer

namespace ODataQuery

theorem Decimal.numeral_inj {m n : Nat} (h : numeral m = numeral n) : m = n := by
  have hm : Nat.ofDigitChars 10 (numeral m) 0 = m := Nat.ofDigitChars_ten_toDigits
  have hn : Nat.ofDigitChars 10 (numeral n) 0 = n := Nat.ofDigitChars_ten_toDigits
  rw [← hm, ← hn, h]

theorem Decimal.isDigit_of_mem_numeral {n : Nat} {c : Char} (h : c ∈ numeral n) : c.isDigit :=
  Nat.isDigit_of_mem_toDigits (by decide) (by decide) h

theorem Decimal.numeral_ne_minus (m : Nat) (cs : List Char) : numeral m ≠ '-' :: cs := by
  intro h
  have hminus : '-' ∈ numeral m := h ▸ List.mem_cons_self
  exact absurd (isDigit_of_mem_numeral hminus) (by decide)

namespace Integer

theorem toList_toText (n : Int) :
    (toText n).toList = (if n < 0 then ['-'] else []) ++ Decimal.numeral n.natAbs :=
  String.toList_ofList

theorem toText_all (n : Int) : (toText n).toList.all fun c => c.isDigit || c == '-' := by
  have hnumeral : (Decimal.numeral n.natAbs).all fun c => c.isDigit || c == '-' := by
    rw [List.all_eq_true]
    intro c hc
    rw [Decimal.isDigit_of_mem_numeral hc, Bool.true_or]
  rw [toList_toText, List.all_append, hnumeral]
  split <;> rfl

theorem toText_ne_nil (n : Int) : (toText n).toList ≠ [] := by
  rw [toList_toText]
  intro h
  exact Nat.toDigits_ne_nil (List.append_eq_nil_iff.mp h).2

theorem toText_inj {m n : Int} (h : (toText m).toList = (toText n).toList) : m = n := by
  rw [toList_toText, toList_toText] at h
  by_cases hm : m < 0 <;> by_cases hn : n < 0
  · rw [if_pos hm, if_pos hn] at h
    have habs := Decimal.numeral_inj (List.append_cancel_left h)
    omega
  · rw [if_pos hm, if_neg hn] at h
    exact absurd h.symm (Decimal.numeral_ne_minus _ _)
  · rw [if_neg hm, if_pos hn] at h
    exact absurd h (Decimal.numeral_ne_minus _ _)
  · rw [if_neg hm, if_neg hn] at h
    have habs := Decimal.numeral_inj (List.append_cancel_left h)
    omega

end Integer

end ODataQuery
