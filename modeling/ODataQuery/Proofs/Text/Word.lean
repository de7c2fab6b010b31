namespace ODataQuery.Text

theorem all_intercalate {p : Char → Bool} {separator : List Char} {parts : List (List Char)}
    (hseparator : separator.all p) (hparts : ∀ part ∈ parts, part.all p) :
    (separator.intercalate parts).all p := by
  induction parts with
  | nil => rfl
  | cons part parts ih =>
    obtain ⟨hpart, hparts⟩ := List.forall_mem_cons.mp hparts
    cases parts with
    | nil => simpa using hpart
    | cons next parts =>
      rw [List.intercalate_cons_cons, List.all_append, List.all_append, hpart, hseparator,
        ih hparts]
      rfl

/-- A character of names, dotted paths and numerals. -/
def isWord (c : Char) : Bool := c.isAlphanum || c == '_' || c == '.' || c == '-'

theorem isWord_of_numeral {c : Char} (h : c.isDigit || c == '-') : isWord c := by
  rw [Bool.or_eq_true] at h
  obtain hdigit | hminus := h
  · simp [isWord, Char.isAlphanum, hdigit]
  · simp [isWord, hminus]

/-- A text behind a word that does not go on with it. -/
def EndsWord (r : List Char) : Prop := ∀ c, r.head? = some c → isWord c = false

theorem EndsWord.cons {c : Char} (h : isWord c = false) (r : List Char) : EndsWord (c :: r) := by
  intro d hd
  cases hd
  exact h

theorem word_unique {w w' r r' : List Char} (hw : w.all isWord) (hw' : w'.all isWord)
    (hr : EndsWord r) (hr' : EndsWord r') (h : w ++ r = w' ++ r') : w = w' ∧ r = r' := by
  induction w generalizing w' with
  | nil =>
    cases w' with
    | nil => exact ⟨rfl, h⟩
    | cons c w' =>
      rw [List.all_cons, Bool.and_eq_true] at hw'
      have hstop := hr c (by rw [List.nil_append] at h; rw [h]; rfl)
      exact absurd hw'.1 (by simp [hstop])
  | cons c w ih =>
    rw [List.all_cons, Bool.and_eq_true] at hw
    cases w' with
    | nil =>
      have hstop := hr' c (by rw [List.nil_append] at h; rw [← h]; rfl)
      exact absurd hw.1 (by simp [hstop])
    | cons d w' =>
      rw [List.all_cons, Bool.and_eq_true] at hw'
      rw [List.cons_append, List.cons_append, List.cons.injEq] at h
      obtain ⟨rfl, h⟩ := h
      obtain ⟨rfl, hrest⟩ := ih hw.2 hw'.2 h
      exact ⟨rfl, hrest⟩

/-- Words with a mark behind each. -/
theorem marked_unique {w w' r r' : List Char} {c d : Char} (hw : w.all isWord)
    (hw' : w'.all isWord) (hc : isWord c = false) (hd : isWord d = false)
    (h : w ++ c :: r = w' ++ d :: r') : w = w' ∧ c = d ∧ r = r' := by
  obtain ⟨hword, hmark⟩ := word_unique hw hw' (.cons hc r) (.cons hd r') h
  rw [List.cons.injEq] at hmark
  exact ⟨hword, hmark⟩

theorem isAlpha_iff {c : Char} : c.isAlpha = true ↔
    (0x41 ≤ c.toNat ∧ c.toNat ≤ 0x5A) ∨ (0x61 ≤ c.toNat ∧ c.toNat ≤ 0x7A) := by
  have hdef : c.isAlpha = (decide ('A'.val ≤ c.val ∧ c.val ≤ 'Z'.val) ||
      (decide ('a'.val ≤ c.val) && decide (c.val ≤ 'z'.val))) := rfl
  rw [hdef]
  simp only [Bool.or_eq_true, Bool.and_eq_true, decide_eq_true_eq, UInt32.le_iff_toNat_le]
  rfl

theorem isDigit_iff {c : Char} : c.isDigit = true ↔ 0x30 ≤ c.toNat ∧ c.toNat ≤ 0x39 := by
  have hdef : c.isDigit = (decide ('0'.val ≤ c.val) && decide (c.val ≤ '9'.val)) := rfl
  rw [hdef]
  simp only [Bool.and_eq_true, decide_eq_true_eq, UInt32.le_iff_toNat_le]
  rfl

/-- A letter or `_`, then letters, digits and `_`. -/
def isIdentifier (s : String) : Bool :=
  match s.toList with
  | [] => false
  | c :: cs => (c.isAlpha || c == '_') && cs.all fun d => d.isAlphanum || d == '_'

theorem isIdentifier_all {s : String} (h : isIdentifier s) :
    s.toList.all fun c => c.isAlphanum || c == '_' := by
  unfold isIdentifier at h
  split at h
  · cases h
  · rename_i c cs hs
    rw [Bool.and_eq_true] at h
    rw [hs, List.all_cons, h.2, Bool.and_true]
    simp only [Char.isAlphanum, Bool.or_eq_true] at h ⊢
    exact h.1.imp_left .inl

theorem isIdentifier_isWord {s : String} (h : isIdentifier s) : s.toList.all isWord := by
  have hall := List.all_eq_true.mp (isIdentifier_all h)
  rw [List.all_eq_true]
  intro c hc
  simp [isWord, hall c hc]

theorem isIdentifier_no_point {s : String} (h : isIdentifier s) : '.' ∉ s.toList := by
  intro hmem
  have hpoint := List.all_eq_true.mp (isIdentifier_all h) '.' hmem
  revert hpoint
  decide

theorem isIdentifier_head {s : String} (h : isIdentifier s) :
    ∃ c cs, s.toList = c :: cs ∧ (c.isAlpha || c == '_') := by
  unfold isIdentifier at h
  split at h
  · cases h
  · rename_i c cs hs
    rw [Bool.and_eq_true] at h
    exact ⟨c, cs, hs, h.1⟩

end ODataQuery.Text
