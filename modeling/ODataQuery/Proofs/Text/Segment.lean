namespace ODataQuery.Text

variable {mark : Char} {before behind : List Char}

theorem ne_mark (h : mark ∉ before) : ∀ c ∈ before, (c != mark) = true := by
  intro c hc
  simpa using fun heq : c = mark => h (heq ▸ hc)

theorem takeWhile_ne_append (h : mark ∉ before) :
    (before ++ mark :: behind).takeWhile (· != mark) = before := by
  simp [List.takeWhile_append_of_pos (ne_mark h)]

theorem dropWhile_ne_append (h : mark ∉ before) :
    (before ++ mark :: behind).dropWhile (· != mark) = mark :: behind := by
  simp [List.dropWhile_append_of_pos (ne_mark h)]

theorem takeWhile_ne_eq_self (h : mark ∉ before) : before.takeWhile (· != mark) = before := by
  have happend : (before ++ []).takeWhile (· != mark) = before ++ [] :=
    List.takeWhile_append_of_pos (ne_mark h)
  rwa [List.append_nil] at happend

theorem dropWhile_ne_eq_nil (h : mark ∉ before) : before.dropWhile (· != mark) = [] := by
  have happend : (before ++ []).dropWhile (· != mark) = [] :=
    List.dropWhile_append_of_pos (ne_mark h)
  rwa [List.append_nil] at happend

theorem mark_not_mem_takeWhile (cs : List Char) : mark ∉ cs.takeWhile (· != mark) := by
  intro hmem
  simpa using List.all_eq_true.mp List.all_takeWhile mark hmem

/-- A run of a class of characters ends where another character follows. -/
theorem takeWhile_append_of_stop {p : Char → Bool} (hall : ∀ c ∈ before, p c = true)
    (hstop : ∀ c ∈ behind.head?, p c = false) : (before ++ behind).takeWhile p = before := by
  rw [List.takeWhile_append_of_pos hall]
  cases behind with
  | nil => simp
  | cons c cs => simp [hstop c rfl]

theorem dropWhile_append_of_stop {p : Char → Bool} (hall : ∀ c ∈ before, p c = true)
    (hstop : ∀ c ∈ behind.head?, p c = false) : (before ++ behind).dropWhile p = behind := by
  rw [List.dropWhile_append_of_pos hall]
  cases behind with
  | nil => rfl
  | cons c cs => simp [hstop c rfl]

theorem mark_not_mem_of_mem_splitOn {cs segment : List Char} (h : segment ∈ cs.splitOn mark) :
    mark ∉ segment := by
  induction cs generalizing segment with
  | nil => simp_all
  | cons c cs ih =>
    obtain ⟨first, later, hsplit⟩ := List.exists_cons_of_ne_nil (List.splitOn_ne_nil mark cs)
    rw [List.splitOn_cons_eq_if_modifyHead, hsplit] at h
    rw [hsplit] at ih
    split at h
    · rcases List.mem_cons.mp h with rfl | hmem
      · exact List.not_mem_nil
      · exact ih hmem
    · rename_i hc
      rcases List.mem_cons.mp h with rfl | hmem
      · rw [List.mem_cons, not_or]
        exact ⟨fun heq => hc (by simp [heq]), ih List.mem_cons_self⟩
      · exact ih (List.mem_cons_of_mem _ hmem)

end ODataQuery.Text
