import ODataQuery.Proofs.Literal.Bare
import ODataQuery.Proofs.Literal.Quote
import ODataQuery.Proofs.Text.Segment

/-!
# Literals as tokens

A literal is one token when it is a run of bare characters or a quotation whose
quotes inside come in pairs. Text of the string type is paired by writing it;
text of the time and the binary type is copied, so it ends its own quotation
unless it came with its quotes in pairs.
-/

namespace ODataQuery.DataType

/-- Whether the quotes of a text come in pairs of neighbours. -/
def quotesPaired : List Char → Bool
  | [] => true
  | '\'' :: '\'' :: cs => quotesPaired cs
  | c :: cs => c != '\'' && quotesPaired cs

/-- What stands behind a quotation whose opening quote is read: the first quote
that no other one follows ends it. -/
def behindQuotation : List Char → Option (List Char)
  | [] => none
  | '\'' :: '\'' :: cs => behindQuotation cs
  | c :: cs => if c = '\'' then some cs else behindQuotation cs

/-- A run of bare characters, or a quotation behind a word of letters or none. -/
inductive IsToken : List Char → Prop where
  | bare {cs : List Char} (hne : cs ≠ []) (hbare : cs.all isBare) : IsToken cs
  | quotation {label body : List Char} (hlabel : label.all Char.isAlpha)
      (hbody : quotesPaired body) : IsToken (label ++ '\'' :: body ++ ['\''])

@[simp] theorem quotesPaired_quotes (cs : List Char) :
    quotesPaired ('\'' :: '\'' :: cs) = quotesPaired cs := rfl

@[simp] theorem behindQuotation_quotes (cs : List Char) :
    behindQuotation ('\'' :: '\'' :: cs) = behindQuotation cs := rfl

theorem quotesPaired_cons_of_ne {c : Char} (h : c ≠ '\'') (cs : List Char) :
    quotesPaired (c :: cs) = quotesPaired cs := by
  rw [quotesPaired.eq_3 c cs (fun _ hc _ => h hc)]
  simp [h]

theorem behindQuotation_cons_of_ne {c : Char} (h : c ≠ '\'') (cs : List Char) :
    behindQuotation (c :: cs) = behindQuotation cs := by
  rw [behindQuotation.eq_3 c cs (fun _ hc _ => h hc), if_neg h]

theorem behindQuotation_single {cs : List Char} (h : cs.head? ≠ some '\'') :
    behindQuotation ('\'' :: cs) = some cs := by
  rw [behindQuotation.eq_3 '\'' cs (fun ds _ hcs => h (by rw [hcs]; rfl)), if_pos rfl]

theorem quotesPaired_doubled (cs : List Char) : quotesPaired (doubled cs) := by
  induction cs with
  | nil => rfl
  | cons c cs ih =>
    by_cases hc : c = '\''
    · subst hc
      rwa [doubled_quote, quotesPaired_quotes]
    · rwa [doubled_cons_of_ne hc, quotesPaired_cons_of_ne hc]

/-- What stands behind a quotation is shorter than the quotation with it. -/
theorem length_behindQuotation {cs rest : List Char} (h : behindQuotation cs = some rest) :
    rest.length < cs.length := by
  fun_induction behindQuotation cs with
  | case1 => cases h
  | case2 cs ih =>
    have hlt := ih h
    simp only [List.length_cons]
    omega
  | case3 cs hnext =>
    cases h
    exact Nat.lt_succ_self _
  | case4 c cs hnext hc ih => exact Nat.lt_succ_of_lt (ih h)

/-- A quotation ends where its text does if and only if every quote in it has its
pair. -/
theorem behindQuotation_eq_rest_iff {body rest : List Char} (hrest : rest.head? ≠ some '\'') :
    behindQuotation (body ++ '\'' :: rest) = some rest ↔ quotesPaired body := by
  fun_induction quotesPaired body with
  | case1 => simp [behindQuotation_single hrest]
  | case2 cs ih => exact ih
  | case3 c cs hnext ih =>
    by_cases hc : c = '\''
    · subst hc
      refine iff_of_false (fun hbehind => ?_) (by simp)
      cases cs with
      | nil =>
        rw [List.singleton_append, behindQuotation_quotes] at hbehind
        exact absurd (length_behindQuotation hbehind) (Nat.lt_irrefl _)
      | cons d ds =>
        have hd : d ≠ '\'' := fun hd => hnext ds rfl (by rw [hd])
        rw [List.cons_append, List.cons_append,
          behindQuotation_single (by simpa using hd), Option.some.injEq] at hbehind
        have hlength := congrArg List.length hbehind
        simp only [List.length_cons, List.length_append] at hlength
        omega
    · rw [List.cons_append, behindQuotation_cons_of_ne hc, ih]
      simp [hc]

theorem quote_not_mem_of_all {p : Char → Bool} (hquote : p '\'' = false) {cs : List Char}
    (h : cs.all p) : '\'' ∉ cs := by
  intro hmem
  rw [List.all_eq_true.mp h '\'' hmem] at hquote
  cases hquote

/-- A quotation is a token if and only if the quotes in it come in pairs. -/
theorem isToken_quotation_iff {label body : List Char} (hlabel : label.all Char.isAlpha) :
    IsToken (label ++ '\'' :: body ++ ['\'']) ↔ quotesPaired body := by
  refine ⟨fun htoken => ?_, .quotation hlabel⟩
  generalize hcs : label ++ '\'' :: body ++ ['\''] = cs at htoken
  cases htoken with
  | bare hne hbare =>
    have hmem : '\'' ∈ cs := by
      rw [← hcs]
      simp
    exact absurd hmem (quote_not_mem_of_all (by decide) hbare)
  | @quotation label' body' hlabel' hbody' =>
    have hquote : '\'' ∉ label := quote_not_mem_of_all (by decide) hlabel
    have hquote' : '\'' ∉ label' := quote_not_mem_of_all (by decide) hlabel'
    rw [List.append_assoc, List.append_assoc] at hcs
    have hbehind := congrArg (List.dropWhile (· != '\'')) hcs
    rw [List.cons_append, List.cons_append, Text.dropWhile_ne_append hquote,
      Text.dropWhile_ne_append hquote', List.cons.injEq] at hbehind
    rwa [List.append_cancel_right hbehind.2]

/-- Whether the text that a literal copies between its quotes has every quote in
a pair. -/
def copiesPaired : DataType → Value → Bool
  | .time, .string s | .binary, .string s => quotesPaired s.toList
  | _, _ => true

theorem exists_quote_of_literal {v : Value} {t : String} (hnull : v ≠ .null)
    (h : literal .string v = .ok t) : ∃ s, t = quote s := by
  cases v with
  | null => exact absurd rfl hnull
  | string s => exact ⟨s, (Except.ok.inj h).symm⟩
  | int n => exact ⟨(Value.int n).display, (Except.ok.inj h).symm⟩
  | float x => exact ⟨x.toText, (Except.ok.inj h).symm⟩
  | bool | list | timestamp => cases h

theorem wrapped_eq_ok {type : DataType} {label : String} {v : Value} {t : String}
    (h : type.wrapped label v = .ok t) :
    ∃ s, v = .string s ∧ t.toList = label.toList ++ '\'' :: s.toList ++ ['\''] := by
  cases v with
  | string s =>
    cases h
    exact ⟨s, rfl, by simp⟩
  | null | bool | int | float | list | timestamp => cases h

theorem literal_time {v : Value} (hnull : v ≠ .null) :
    literal .time v = wrapped .time "duration" v := by
  cases v with
  | null => exact absurd rfl hnull
  | bool | int | float | string | list | timestamp => rfl

theorem literal_binary {v : Value} (hnull : v ≠ .null) :
    literal .binary v = wrapped .binary "binary" v := by
  cases v with
  | null => exact absurd rfl hnull
  | bool | int | float | string | list | timestamp => rfl

/-- A literal of a quoted type is a quotation behind a word of letters or none,
and its quotes come in pairs exactly if those of the copied text do. -/
theorem exists_quotation_of_literal {type : DataType} {v : Value} {t : String}
    (hquoted : type.isQuoted) (hnull : v ≠ .null) (h : type.literal v = .ok t) :
    ∃ label body, label.all Char.isAlpha ∧ t.toList = label ++ '\'' :: body ++ ['\''] ∧
      quotesPaired body = type.copiesPaired v := by
  cases type with
  | string =>
    obtain ⟨s, rfl⟩ := exists_quote_of_literal hnull h
    exact ⟨[], doubled s.toList, rfl, toList_quote s, quotesPaired_doubled s.toList⟩
  | time =>
    rw [literal_time hnull] at h
    obtain ⟨s, rfl, ht⟩ := wrapped_eq_ok h
    exact ⟨_, s.toList, by decide, ht, rfl⟩
  | binary =>
    rw [literal_binary hnull] at h
    obtain ⟨s, rfl, ht⟩ := wrapped_eq_ok h
    exact ⟨_, s.toList, by decide, ht, rfl⟩
  | int16 | int32 | int64 | byte | decimal | double | single | boolean | dateTime
  | dateTimeOffset | guid | undefined => cases hquoted

theorem isToken_literal_null {type : DataType} {t : String} (h : type.literal .null = .ok t) :
    IsToken t.toList := by
  have hnull : t = "null" := by
    cases type <;> exact (Except.ok.inj h).symm
  rw [hnull]
  exact .bare (by decide) (by decide)

theorem copiesPaired_null (type : DataType) : type.copiesPaired .null = true := by
  cases type <;> rfl

theorem copiesPaired_of_not_isQuoted {type : DataType} (h : type.isQuoted = false) (v : Value) :
    type.copiesPaired v = true := by
  cases type with
  | string | time | binary => cases h
  | int16 | int32 | int64 | byte | decimal | double | single | boolean | dateTime
  | dateTimeOffset | guid | undefined => rfl

/-- **A literal of a declared type is one token if and only if what a time or a
binary literal copies has every quote in a pair.** The quotation of a quoted type
ends at the end of the literal, whatever follows that is no quote, under the same
condition; text of the string type meets it always. -/
theorem literal_isToken_iff {type : DataType} {v : Value} {t : String}
    (hdeclared : type ≠ .undefined) (h : type.literal v = .ok t) :
    (IsToken t.toList ↔ type.copiesPaired v) ∧
      (type.isQuoted → v ≠ .null → ∃ label body, label.all Char.isAlpha ∧
        t.toList = label ++ '\'' :: body ++ ['\''] ∧
        ∀ rest : List Char, rest.head? ≠ some '\'' →
          (behindQuotation (body ++ '\'' :: rest) = some rest ↔ type.copiesPaired v)) := by
  cases hquoted : type.isQuoted with
  | false =>
    have hunquoted := isUnquoted_of_literal hquoted hdeclared h
    refine ⟨iff_of_true (.bare hunquoted.ne_nil hunquoted.bare) ?_, nofun⟩
    exact copiesPaired_of_not_isQuoted hquoted v
  | true =>
    by_cases hnull : v = .null
    · subst hnull
      exact ⟨iff_of_true (isToken_literal_null h) (copiesPaired_null type),
        fun _ hne => absurd rfl hne⟩
    · obtain ⟨label, body, hlabel, ht, hpaired⟩ := exists_quotation_of_literal hquoted hnull h
      rw [ht, ← hpaired]
      exact ⟨isToken_quotation_iff hlabel, fun _ _ =>
        ⟨label, body, hlabel, rfl, fun rest hrest => behindQuotation_eq_rest_iff hrest⟩⟩

/-- A quote in a string is doubled, one in a duration only where it came so. -/
theorem literal_isToken_quoted :
    (literal .string (.string "it's") = .ok "'it''s'" ∧ IsToken "'it''s'".toList) ∧
      literal .time (.string "PT''1H") = .ok "duration'PT''1H'" ∧
      IsToken "duration'PT''1H'".toList := by
  have hstring : literal .string (.string "it's") = .ok "'it''s'" := rfl
  have htime : literal .time (.string "PT''1H") = .ok "duration'PT''1H'" := rfl
  exact ⟨⟨hstring, (literal_isToken_iff (by decide) hstring).1.mpr rfl⟩, htime,
    (literal_isToken_iff (by decide) htime).1.mpr (by decide)⟩

/-- A single quote in a duration or in binary text ends the quotation, and what
comes behind it is read as filter text. -/
theorem literal_leaves_quotation :
    (literal .time (.string "PT1H' or true") = .ok "duration'PT1H' or true'" ∧
      behindQuotation "PT1H' or true'".toList = some " or true'".toList ∧
      ¬IsToken "duration'PT1H' or true'".toList) ∧
    (literal .binary (.string "00' or true") = .ok "binary'00' or true'" ∧
      behindQuotation "00' or true'".toList = some " or true'".toList ∧
      ¬IsToken "binary'00' or true'".toList) := by
  have htime : ¬IsToken ("duration".toList ++ '\'' :: "PT1H' or true".toList ++ ['\'']) := by
    rw [isToken_quotation_iff (by decide)]
    decide
  have hbinary : ¬IsToken ("binary".toList ++ '\'' :: "00' or true".toList ++ ['\'']) := by
    rw [isToken_quotation_iff (by decide)]
    decide
  exact ⟨⟨rfl, by decide, htime⟩, rfl, by decide, hbinary⟩

end ODataQuery.DataType
