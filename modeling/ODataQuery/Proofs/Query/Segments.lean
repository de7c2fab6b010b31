import ODataQuery.Proofs.Outcome
import ODataQuery.Proofs.Text.Segment
import ODataQuery.Query.Options

/-!
# Options by their segments

The segments of an option text are what stands between its ampersands. The parser
goes from left to right and never splits, yet it reads one entry for each segment
that is not empty, and stops at the first segment with a value and no name.
-/

namespace ODataQuery.QueryOptions

open ODataQuery.Parser ODataQuery.Text

/-- The text before the first equals sign of a segment. -/
def nameText (segment : List Char) : List Char := segment.takeWhile (· != '=')

/-- The text behind the first equals sign of a segment. -/
def valueText (segment : List Char) : List Char := (segment.dropWhile (· != '=')).tail

def entryOf (segment : List Char) : Option Entry :=
  if segment = [] then none
  else some (nameText segment, if '=' ∈ segment then some (valueText segment) else none)

/-- A segment with a value has a name. -/
def IsNamed (segment : List Char) : Prop := segment.head? ≠ some '='

instance (segment : List Char) : Decidable (IsNamed segment) :=
  inferInstanceAs (Decidable (segment.head? ≠ some '='))

def segments (query : String) : List (List Char) := query.toList.splitOn '&'

/-- The segments that are read. -/
def filledSegments (query : String) : List (List Char) := (segments query).filter (!·.isEmpty)

/-- The pair of a segment, name before value. -/
def readSegment (segment : List Char) : Except QueryError (String × String) := do
  let name ← decodeComponent (String.ofList (nameText segment))
  let value ← decodeComponent (String.ofList (valueText segment))
  return (name, value)

section

variable {segment behind : List Char}

/-- A segment has no equals sign, or it is cut at its first one. -/
theorem segment_cases (segment : List Char) :
    ('=' ∉ segment ∧ nameText segment = segment ∧ valueText segment = []) ∨
      ('=' ∈ segment ∧ '=' ∉ nameText segment ∧
        segment = nameText segment ++ '=' :: valueText segment) := by
  by_cases h : '=' ∈ segment
  · obtain ⟨name, value, rfl, hname⟩ := List.eq_append_cons_of_mem h
    refine .inr ⟨h, ?_⟩
    simp only [nameText, valueText, takeWhile_ne_append hname, dropWhile_ne_append hname,
      List.tail_cons]
    exact ⟨hname, trivial⟩
  · refine .inl ⟨h, takeWhile_ne_eq_self h, ?_⟩
    rw [valueText, dropWhile_ne_eq_nil h, List.tail_nil]

theorem run_takeWhile {p : Char → Bool} (hall : ∀ c ∈ segment, p c = true)
    (hstop : ∀ c ∈ behind.head?, p c = false) :
    (Parser.takeWhile p).run (segment ++ behind) = .ok (segment, behind) := by
  simp only [Parser.takeWhile, takeWhile_append_of_stop hall hstop,
    dropWhile_append_of_stop hall hstop]

theorem run_takeSome {p : Char → Bool} (hall : ∀ c ∈ segment, p c = true)
    (hstop : ∀ c ∈ behind.head?, p c = false) (hne : segment ≠ []) :
    (Parser.takeSome p).run (segment ++ behind) = .ok (segment, behind) := by
  simp only [Parser.takeSome, takeWhile_append_of_stop hall hstop,
    dropWhile_append_of_stop hall hstop, if_neg hne]

theorem run_takeSome_error {p : Char → Bool} (hstop : ∀ c ∈ behind.head?, p c = false) :
    (Parser.takeSome p).run behind = .error ⟨behind, .takeSome⟩ := by
  have htaken : ([] ++ behind).takeWhile p = [] := takeWhile_append_of_stop (by simp) hstop
  simp only [Parser.takeSome, List.nil_append] at htaken ⊢
  rw [if_pos htaken]

theorem run_char_error {c : Char} (h : ∀ d ∈ behind.head?, d ≠ c) :
    (Parser.char c).run behind = .error ⟨behind, .char⟩ := by
  cases behind with
  | nil => rfl
  | cons d cs => simp only [Parser.char, if_neg (h d rfl)]

/-- A segment with a name is read whole, up to the ampersand behind it. -/
theorem run_option (hname : IsNamed segment) (hne : segment ≠ []) (hamp : '&' ∉ segment)
    (hbehind : ∀ c ∈ behind.head?, c = '&') :
    option.run (segment ++ behind) =
      .ok ((nameText segment, if '=' ∈ segment then some (valueText segment) else none), behind) := by
  have hstop : ∀ c ∈ behind.head?, (c != '=' && c != '&') = false := by
    intro c hc
    simp [hbehind c hc]
  rcases segment_cases segment with ⟨hequals, hnameText, -⟩ | ⟨hequals, hfree, hcut⟩
  · -- the name runs up to the ampersand
    rw [hnameText, if_neg hequals]
    refine run_pair_ok (run_takeSome ?_ hstop hne) (run_optional_error (m := ⟨behind, .char⟩) ?_)
    · intro c hc
      simp only [Bool.and_eq_true]
      exact ⟨ne_mark hequals c hc, ne_mark hamp c hc⟩
    · exact run_preceded_error (run_char_error fun d hd => by simp [hbehind d hd])
  · -- the name runs up to the equals sign and the value up to the ampersand
    rw [if_pos hequals]
    generalize nameText segment = name, valueText segment = value at hfree hcut ⊢
    subst hcut
    rw [List.mem_append, List.mem_cons, not_or, not_or] at hamp
    have hne' : name ≠ [] := by
      rintro rfl
      exact hname rfl
    have hcs : name ++ '=' :: value ++ behind = name ++ '=' :: (value ++ behind) := by simp
    rw [hcs]
    refine run_pair_ok (run_takeSome ?_ ?_ hne')
      (run_optional_ok (run_preceded_ok (run_char '=' _) (run_takeWhile (ne_mark hamp.2.2) ?_)))
    · intro c hc
      simp only [Bool.and_eq_true]
      exact ⟨ne_mark hfree c hc, ne_mark hamp.1 c hc⟩
    · rintro c ⟨⟩
      rfl
    · intro c hc
      simp [hbehind c hc]

/-- Where an equals sign, an ampersand or nothing stands, no option begins. -/
theorem run_option_error (h : ∀ c ∈ behind.head?, c = '=' ∨ c = '&') :
    option.run behind = .error ⟨behind, .takeSome⟩ := by
  refine run_pair_error (run_takeSome_error fun c hc => ?_)
  rcases h c hc with rfl | rfl <;> rfl

theorem run_entryOf (hname : IsNamed segment) (hamp : '&' ∉ segment)
    (hbehind : ∀ c ∈ behind.head?, c = '&') :
    (Parser.optional option).run (segment ++ behind) = .ok (entryOf segment, behind) := by
  by_cases hne : segment = []
  · subst hne
    exact run_optional_error (run_option_error fun c hc => .inr (hbehind c hc))
  · rw [entryOf, if_neg hne]
    exact run_optional_ok (run_option hname hne hamp hbehind)

end

theorem run_optionList_last {segment : List Char} (hname : IsNamed segment)
    (hamp : '&' ∉ segment) : optionList.run segment = .ok ([entryOf segment], []) := by
  have hitem : (Parser.optional option).run (segment ++ []) = .ok (entryOf segment, []) :=
    run_entryOf hname hamp (by simp)
  rw [List.append_nil] at hitem
  exact run_separatedList_last hitem (run_char_error (by simp))

theorem run_optionList_cons {segment : List Char} (hname : IsNamed segment)
    (hamp : '&' ∉ segment) (more : List Char) :
    optionList.run (segment ++ '&' :: more) =
      (optionList.run more).map fun r => (entryOf segment :: r.1, r.2) := by
  obtain ⟨b, left, hnext⟩ := exists_run_optional option more
  refine run_separatedList_cons (run_entryOf hname hamp ?_) (run_char '&' more) (by simp) hnext
  rintro c ⟨⟩
  rfl

/-- Nothing is read of a text that begins with an equals sign. -/
theorem run_optionList_stop {cs : List Char} (h : ¬ IsNamed cs) :
    optionList.run cs = .ok ([none], cs) := by
  have hhead : ∀ c ∈ cs.head?, c = '=' := by
    intro c hc
    rw [Decidable.not_not.mp h] at hc
    exact (Option.some.inj hc).symm
  have hitem : (Parser.optional option).run cs = .ok (none, cs) :=
    run_optional_error (run_option_error fun c hc => .inl (hhead c hc))
  refine run_separatedList_last hitem (run_char_error fun c hc => ?_)
  rw [hhead c hc]
  decide

theorem run_optionList {ss : List (List Char)} (hne : ss ≠ []) (hname : ∀ s ∈ ss, IsNamed s)
    (hamp : ∀ s ∈ ss, '&' ∉ s) :
    optionList.run (['&'].intercalate ss) = .ok (ss.map entryOf, []) := by
  induction ss with
  | nil => exact absurd rfl hne
  | cons s ss ih =>
    rw [List.forall_mem_cons] at hname hamp
    cases ss with
    | nil => simpa using run_optionList_last hname.1 hamp.1
    | cons t ss =>
      rw [List.intercalate_cons_cons, List.append_assoc, List.singleton_append,
        run_optionList_cons hname.1 hamp.1, ih (by simp) hname.2 hamp.2]
      rfl

theorem not_isNamed_intercalate {segment : List Char} (h : ¬ IsNamed segment)
    (later : List (List Char)) : ¬ IsNamed (['&'].intercalate (segment :: later)) := by
  intro hnamed
  refine h fun hhead => hnamed ?_
  cases later with
  | nil => simpa using hhead
  | cons t later => simp [List.intercalate_cons_cons, hhead]

theorem run_optionList_nameless {earlier : List (List Char)} {segment : List Char}
    (hname : ∀ s ∈ earlier, IsNamed s) (hamp : ∀ s ∈ earlier, '&' ∉ s)
    (hsegment : ¬ IsNamed segment) (later : List (List Char)) :
    optionList.run (['&'].intercalate (earlier ++ segment :: later)) =
      .ok (earlier.map entryOf ++ [none], ['&'].intercalate (segment :: later)) := by
  induction earlier with
  | nil => exact run_optionList_stop (not_isNamed_intercalate hsegment later)
  | cons s earlier ih =>
    rw [List.forall_mem_cons] at hname hamp
    obtain ⟨t, rest, hrest⟩ : ∃ t rest, earlier ++ segment :: later = t :: rest :=
      List.exists_cons_of_ne_nil (by simp)
    rw [List.cons_append, hrest, List.intercalate_cons_cons, List.append_assoc,
      List.singleton_append, run_optionList_cons hname.1 hamp.1, ← hrest, ih hname.2 hamp.2]
    rfl

theorem intercalate_segments (query : String) :
    ['&'].intercalate (segments query) = query.toList :=
  List.intercalate_splitOn '&'

theorem no_ampersand_of_mem_segments {query : String} {segment : List Char}
    (h : segment ∈ segments query) : '&' ∉ segment :=
  mark_not_mem_of_mem_splitOn h

theorem decodeEntry_entry (segment : List Char) :
    decodeEntry (nameText segment, if '=' ∈ segment then some (valueText segment) else none) =
      readSegment segment := by
  rcases segment_cases segment with ⟨hequals, -, hvalue⟩ | ⟨hequals, -, -⟩
  · rw [if_neg hequals, readSegment, hvalue]
    rfl
  · rw [if_pos hequals]
    rfl

theorem mapM_decodeEntry (ss : List (List Char)) :
    ((ss.map entryOf).filterMap id).mapM decodeEntry =
      (ss.filter (!·.isEmpty)).mapM readSegment := by
  induction ss with
  | nil => rfl
  | cons s ss ih =>
    by_cases hs : s = []
    · subst hs
      exact ih
    · have hentry : entryOf s =
          some (nameText s, if '=' ∈ s then some (valueText s) else none) := if_neg hs
      have hfilled : (s :: ss).filter (!·.isEmpty) = s :: ss.filter (!·.isEmpty) :=
        List.filter_cons_of_pos (by simpa using hs)
      rw [List.map_cons, hentry, List.filterMap_cons_some (f := id) rfl, hfilled, List.mapM_cons,
        List.mapM_cons, decodeEntry_entry, ih]

theorem parse_of_named {query : String} (h : ∀ s ∈ segments query, IsNamed s) :
    parse query = (filledSegments query).mapM readSegment := by
  have hrun := run_optionList (List.splitOn_ne_nil '&' query.toList) h
    fun s hs => no_ampersand_of_mem_segments hs
  change optionList.run (['&'].intercalate (segments query)) = _ at hrun
  rw [intercalate_segments] at hrun
  rw [parse, hrun]
  exact mapM_decodeEntry (segments query)

theorem parse_of_nameless {query : String} {earlier later : List (List Char)}
    {segment : List Char} (hsegments : segments query = earlier ++ segment :: later)
    (hname : ∀ s ∈ earlier, IsNamed s) (hsegment : ¬ IsNamed segment) :
    parse query = .error (.parse (position query (['&'].intercalate (segment :: later)))
      ("Unexpected trailing content: '" ++ String.ofList (['&'].intercalate (segment :: later)) ++
        "'")) := by
  have hamp : ∀ s ∈ earlier, '&' ∉ s := fun s hs =>
    no_ampersand_of_mem_segments (by rw [hsegments]; exact List.mem_append_left _ hs)
  have hrun := run_optionList_nameless hname hamp hsegment later
  rw [← hsegments, intercalate_segments] at hrun
  have hrest := not_isNamed_intercalate hsegment later
  rw [parse, hrun]
  split
  · rename_i hnil
    obtain ⟨-, hnil⟩ := Prod.mk.inj (Except.ok.inj hnil)
    rw [hnil] at hrest
    exact absurd (by decide) hrest
  · rename_i hrun'
    obtain ⟨-, rfl⟩ := Prod.mk.inj (Except.ok.inj hrun')
    rfl
  · rename_i hrun'
    simp at hrun'

theorem exists_first_nameless {ss : List (List Char)} (h : ¬ ∀ s ∈ ss, IsNamed s) :
    ∃ earlier segment later, ss = earlier ++ segment :: later ∧
      (∀ s ∈ earlier, IsNamed s) ∧ ¬ IsNamed segment := by
  induction ss with
  | nil => exact absurd (by simp) h
  | cons s ss ih =>
    by_cases hs : IsNamed s
    · obtain ⟨earlier, segment, later, rfl, hname, hsegment⟩ := ih fun hss =>
        h (List.forall_mem_cons.mpr ⟨hs, hss⟩)
      exact ⟨s :: earlier, segment, later, rfl, List.forall_mem_cons.mpr ⟨hs, hname⟩, hsegment⟩
    · exact ⟨[], s, ss, rfl, by simp, hs⟩

theorem parse_eq_ok {query : String} {pairs : List (String × String)} :
    parse query = .ok pairs ↔ (∀ s ∈ segments query, IsNamed s) ∧
      (filledSegments query).mapM readSegment = .ok pairs := by
  by_cases h : ∀ s ∈ segments query, IsNamed s
  · rw [parse_of_named h, and_iff_right h]
  · obtain ⟨earlier, segment, later, hsegments, hname, hsegment⟩ := exists_first_nameless h
    simp [h, parse_of_nameless hsegments hname hsegment]

end ODataQuery.QueryOptions
