import ODataQuery.Literal

namespace ODataQuery.DataType

/-- A text as it stands between quotes. -/
def doubled (cs : List Char) : List Char :=
  cs.flatMap fun c => if c = '\'' then ['\'', '\''] else [c]

theorem toList_quote (s : String) : (quote s).toList = '\'' :: doubled s.toList ++ ['\''] := by
  simp [quote, doubled]

@[simp] theorem doubled_nil : doubled [] = [] := rfl

theorem doubled_quote (cs : List Char) : doubled ('\'' :: cs) = '\'' :: '\'' :: doubled cs := rfl

theorem doubled_cons_of_ne {c : Char} (h : c ≠ '\'') (cs : List Char) :
    doubled (c :: cs) = c :: doubled cs := by
  rw [doubled, List.flatMap_cons, if_neg h]
  rfl

theorem doubled_eq_self {cs : List Char} (h : '\'' ∉ cs) : doubled cs = cs := by
  induction cs with
  | nil => rfl
  | cons c cs ih =>
    rw [List.mem_cons, not_or] at h
    rw [doubled_cons_of_ne (Ne.symm h.1), ih h.2]

/-- A quote that no other one follows can only be the closing one. -/
theorem closing_unique {ds r r' : List Char} (hr : r.head? ≠ some '\'')
    (h : '\'' :: r = doubled ds ++ '\'' :: r') : ds = [] ∧ r = r' := by
  cases ds with
  | nil => exact ⟨rfl, List.tail_eq_of_cons_eq h⟩
  | cons d ds =>
    by_cases hd : d = '\''
    · subst hd
      have htail : r = '\'' :: (doubled ds ++ '\'' :: r') := List.tail_eq_of_cons_eq h
      exact absurd (congrArg List.head? htail) hr
    · rw [doubled_cons_of_ne hd] at h
      exact absurd (List.head_eq_of_cons_eq h).symm hd

/-- Only one text can stand in front of a closing quote. -/
theorem doubled_unique {cs ds r r' : List Char} (hr : r.head? ≠ some '\'')
    (hr' : r'.head? ≠ some '\'') (h : doubled cs ++ '\'' :: r = doubled ds ++ '\'' :: r') :
    cs = ds ∧ r = r' := by
  induction cs generalizing ds with
  | nil =>
    obtain ⟨rfl, hrest⟩ := closing_unique hr h
    exact ⟨rfl, hrest⟩
  | cons c cs ih =>
    cases ds with
    | nil =>
      obtain ⟨hnil, -⟩ := closing_unique hr' h.symm
      cases hnil
    | cons d ds =>
      by_cases hc : c = '\'' <;> by_cases hd : d = '\''
      · subst hc hd
        rw [doubled_quote, doubled_quote] at h
        obtain ⟨rfl, hrest⟩ := ih (List.tail_eq_of_cons_eq (List.tail_eq_of_cons_eq h))
        exact ⟨rfl, hrest⟩
      · subst hc
        rw [doubled_quote, doubled_cons_of_ne hd] at h
        exact absurd (List.head_eq_of_cons_eq h).symm hd
      · subst hd
        rw [doubled_quote, doubled_cons_of_ne hc] at h
        exact absurd (List.head_eq_of_cons_eq h) hc
      · rw [doubled_cons_of_ne hc, doubled_cons_of_ne hd] at h
        obtain rfl := List.head_eq_of_cons_eq h
        obtain ⟨rfl, hrest⟩ := ih (List.tail_eq_of_cons_eq h)
        exact ⟨rfl, hrest⟩

end ODataQuery.DataType
