import ODataQuery.Proofs.Number.Numeral
import ODataQuery.Proofs.Text.Segment

namespace ODataQuery

theorem Decimal.parts?_of_digits {cs : List Char} (hne : cs ≠ []) (h : ∀ c ∈ cs, c.isDigit) :
    parts? cs = some ⟨ofDigits cs, 0⟩ := by
  have htake : (cs ++ []).takeWhile Char.isDigit = cs := Text.takeWhile_append_of_stop h nofun
  have hdrop : (cs ++ []).dropWhile Char.isDigit = [] := Text.dropWhile_append_of_stop h nofun
  rw [List.append_nil] at htake hdrop
  have hsome : cs.isEmpty = false := by rwa [Bool.eq_false_iff, Ne, List.isEmpty_iff]
  unfold parts?
  simp [htake, hdrop, hsome]

theorem Decimal.nearest_natCast (n : Nat) : nearest ⟨n, 0⟩ = Binary64.ofRatio n 1 := by
  unfold nearest
  by_cases hn : n = 0
  · rw [if_pos hn, Binary64.ofRatio, if_pos hn]
  · have hratio : Binary64.overPower 10 (-0) n 1 = (n, 1) := rfl
    have hlarge : ¬(310 : Int) < 0 := by decide
    have hsmall : ¬(0 : Int) < -((n.log2 / 3 : Nat) + 346 : Int) := by omega
    rw [if_neg hn, if_neg hlarge, if_neg hsmall, hratio]

namespace Binary64

theorem toLower_of_isDigit {c : Char} (hc : c.isDigit) : c.toLower = c := by
  have hupper : ¬(c.val ≥ 'A'.val ∧ c.val ≤ 'Z'.val) := by
    rintro ⟨hle, -⟩
    have hcode : 0x41 ≤ c.toNat := hle
    have hdigit := Text.isDigit_iff.mp hc
    omega
  exact dif_neg hupper

/-- No word begins with a digit, so what does is read as a numeral. -/
theorem head_of_word {c d : Char} {cs ds : List Char} (hc : c.isDigit) (hd : d.isDigit = false) :
    (c :: cs).map Char.toLower ≠ d :: ds := by
  rw [List.map_cons, toLower_of_isDigit hc]
  rintro ⟨⟩
  rw [hc] at hd
  cases hd

theorem parse?_minus {c : Char} (hc : c.isDigit) (cs : List Char) :
    parse? ('-' :: c :: cs) = (Decimal.parts? (c :: cs)).map fun d => signed true d.nearest := by
  unfold parse?
  dsimp only
  split
  · rename_i hword
    exact absurd hword (head_of_word hc rfl)
  · rename_i hword
    exact absurd hword (head_of_word hc rfl)
  · rename_i hword
    exact absurd hword (head_of_word hc rfl)
  · rfl

theorem parse?_of_isDigit {c : Char} (hc : c.isDigit) (cs : List Char) :
    parse? (c :: cs) = (Decimal.parts? (c :: cs)).map fun d => signed false d.nearest := by
  have hminus : c ≠ '-' := by
    rintro rfl
    cases hc
  have hplus : c ≠ '+' := by
    rintro rfl
    cases hc
  unfold parse?
  split
  rename_i hbody
  split at hbody
  · rename_i hcs
    exact absurd (List.cons.inj hcs).1 hminus
  · rename_i hcs
    exact absurd (List.cons.inj hcs).1 hplus
  · cases hbody
    split
    · rename_i hword
      exact absurd hword (head_of_word hc rfl)
    · rename_i hword
      exact absurd hword (head_of_word hc rfl)
    · rename_i hword
      exact absurd hword (head_of_word hc rfl)
    · rfl

/-- **The numeral of an integer is read as the double nearest to it.** -/
theorem parse?_toText (n : Int) : parse? (Integer.toText n).toList = some (ofInt n) := by
  have hdigits : ∀ c ∈ Decimal.numeral n.natAbs, c.isDigit :=
    fun _ => Decimal.isDigit_of_mem_numeral
  have hne : Decimal.numeral n.natAbs ≠ [] := Nat.toDigits_ne_nil
  have hparts := Decimal.parts?_of_digits hne hdigits
  have hvalue : Decimal.ofDigits (Decimal.numeral n.natAbs) = n.natAbs := by
    rw [Decimal.ofDigits_eq]
    exact Nat.ofDigitChars_ten_toDigits
  rw [hvalue] at hparts
  obtain ⟨c, cs, hcs⟩ := List.exists_cons_of_ne_nil hne
  have hc : c.isDigit := hdigits c (hcs ▸ List.mem_cons_self)
  rw [hcs] at hparts
  rw [Integer.toList_toText, hcs, ofInt]
  by_cases hn : n < 0
  · rw [if_pos hn, List.singleton_append, parse?_minus hc, hparts, Option.map_some,
      Decimal.nearest_natCast, decide_eq_true hn]
  · rw [if_neg hn, List.nil_append, parse?_of_isDigit hc, hparts, Option.map_some,
      Decimal.nearest_natCast, decide_eq_false hn]

end Binary64

end ODataQuery
