import ODataQuery.Text.Blank

namespace ODataQuery.Text

variable {p : Char → Bool} {cs : List Char}

theorem dropWhile_eq_self_iff : cs.dropWhile p = cs ↔ ∀ c ∈ cs.head?, p c = false := by
  cases cs with
  | nil => simp
  | cons c cs =>
    cases h : p c
    · simp [h]
    · simp only [List.dropWhile_cons, h, ↓reduceIte, List.head?_cons, Option.mem_some_iff]
      constructor
      · intro heq
        have hle := (List.dropWhile_suffix p : cs.dropWhile p <:+ cs).length_le
        rw [heq, List.length_cons] at hle
        omega
      · intro hall
        exact absurd (hall c rfl) (by simp [h])

theorem strip_eq_self_iff :
    strip p cs = cs ↔ (∀ c ∈ cs.head?, p c = false) ∧ ∀ c ∈ cs.getLast?, p c = false := by
  have hback (ds : List Char) :
      (ds.reverse.dropWhile p).reverse = ds ↔ ∀ c ∈ ds.getLast?, p c = false := by
    rw [← List.head?_reverse, ← dropWhile_eq_self_iff, List.reverse_eq_iff]
  rw [strip]
  constructor
  · intro h
    have hlen := congrArg List.length h
    have hfront : cs.dropWhile p = cs := by
      refine (List.dropWhile_suffix p).eq_of_length_le ?_
      have hle := (List.dropWhile_suffix p (l := (cs.dropWhile p).reverse)).length_le
      simp only [List.length_reverse] at hlen hle
      omega
    rw [hfront] at h
    exact ⟨dropWhile_eq_self_iff.mp hfront, (hback cs).mp h⟩
  · rintro ⟨hfront, hlast⟩
    rw [dropWhile_eq_self_iff.mpr hfront, (hback cs).mpr hlast]

theorem strip_eq_self_of_forall (h : ∀ c ∈ cs, p c = false) : strip p cs = cs :=
  strip_eq_self_iff.mpr
    ⟨fun c hc => h c (List.mem_of_head? hc), fun c hc => h c (List.mem_of_getLast? hc)⟩

theorem not_of_head?_dropWhile {c : Char} (h : c ∈ (cs.dropWhile p).head?) : p c = false := by
  have hhead := List.head?_dropWhile_not p cs
  rw [h] at hhead
  exact hhead

theorem strip_prefix_dropWhile : strip p cs <+: cs.dropWhile p := by
  have hsuffix := List.dropWhile_suffix p (l := (cs.dropWhile p).reverse)
  rw [← List.reverse_prefix, List.reverse_reverse] at hsuffix
  exact hsuffix

theorem mem_of_mem_strip {c : Char} (h : c ∈ strip p cs) : c ∈ cs :=
  (List.dropWhile_suffix p).mem (strip_prefix_dropWhile.mem h)

theorem strip_strip : strip p (strip p cs) = strip p cs := by
  rw [strip_eq_self_iff]
  constructor
  · intro c hc
    have hhead : (strip p cs).head? = (cs.dropWhile p).head? := by
      obtain ⟨behind, hbehind⟩ := (strip_prefix_dropWhile : strip p cs <+: cs.dropWhile p)
      rw [← hbehind, List.head?_append, hc, Option.some_or]
    exact not_of_head?_dropWhile (hhead ▸ hc)
  · intro c hc
    rw [strip, List.getLast?_reverse] at hc
    exact not_of_head?_dropWhile hc

end ODataQuery.Text
