import Mathlib.Data.List.Forall2
import ODataQuery.Proofs.Query.Segments

/-!
# The grammar of options

What a text of options is read as, said of the pieces between its ampersands and
not of the parser that goes through it: the pairs of the pieces that are not empty,
or the first piece that has a value and no name, or the first component that is no
text when it is decoded. Reading gives one of the three for every text.
-/

namespace ODataQuery.QueryOptions

/-- The texts that are decoded, in reading order. -/
def components (query : String) : List String :=
  (filledSegments query).flatMap fun s => [String.ofList (nameText s), String.ofList (valueText s)]

def Decodes (segment : List Char) (pair : String × String) : Prop :=
  decodeComponent (String.ofList (nameText segment)) = .ok pair.1 ∧
    decodeComponent (String.ofList (valueText segment)) = .ok pair.2

/-- What a text of options is read as. A missing name counts before anything that
does not decode. -/
inductive Reads (query : String) : Except QueryError (List (String × String)) → Prop
  | stopped {earlier later : List (List Char)} {segment : List Char} {before rest : String}
      (hsegments : query.toList.splitOn '&' = earlier ++ segment :: later)
      (hearlier : ∀ s ∈ earlier, s.head? ≠ some '=') (hsegment : segment.head? = some '=')
      (hbefore : before.toList = earlier.flatMap (· ++ ['&'])) (hquery : query = before ++ rest) :
      Reads query (.error (.parse before.utf8ByteSize
        ("Unexpected trailing content: '" ++ rest ++ "'")))
  | undecodable {done rest : List String} {component reason : String}
      (hnamed : ∀ s ∈ query.toList.splitOn '&', s.head? ≠ some '=')
      (hcomponents : components query = done ++ component :: rest)
      (hdone : ∀ c ∈ done, ∃ text, decodeComponent c = .ok text)
      (hcomponent : decodeComponent component = .error (.invalidValue "uri component" reason)) :
      Reads query (.error (.invalidValue "uri component" reason))
  | decoded {pairs : List (String × String)}
      (hnamed : ∀ s ∈ query.toList.splitOn '&', s.head? ≠ some '=')
      (hpairs : List.Forall₂ Decodes (filledSegments query) pairs) : Reads query (.ok pairs)

theorem intercalate_append_cons (earlier : List (List Char)) (segment : List Char)
    (later : List (List Char)) : ['&'].intercalate (earlier ++ segment :: later) =
      earlier.flatMap (· ++ ['&']) ++ ['&'].intercalate (segment :: later) := by
  induction earlier with
  | nil => rfl
  | cons s earlier ih =>
    obtain ⟨t, rest, hrest⟩ : ∃ t rest, earlier ++ segment :: later = t :: rest :=
      List.exists_cons_of_ne_nil (by simp)
    rw [List.cons_append, hrest, List.intercalate_cons_cons, ← hrest, ih, List.flatMap_cons,
      List.append_assoc (s ++ ['&'])]

section

variable {query before rest : String} {earlier later : List (List Char)} {segment : List Char}

/-- A text is what stands before a segment, and the segment with all behind it. -/
theorem toList_of_segments (h : segments query = earlier ++ segment :: later) : query.toList =
    earlier.flatMap (· ++ ['&']) ++ ['&'].intercalate (segment :: later) := by
  rw [← intercalate_append_cons, ← h, intercalate_segments]

theorem parse_of_stopped (hsegments : segments query = earlier ++ segment :: later)
    (hearlier : ∀ s ∈ earlier, IsNamed s) (hsegment : segment.head? = some '=')
    (hbefore : before.toList = earlier.flatMap (· ++ ['&'])) (hquery : query = before ++ rest) :
    parse query = .error (.parse before.utf8ByteSize
      ("Unexpected trailing content: '" ++ rest ++ "'")) := by
  have hrest : String.ofList (['&'].intercalate (segment :: later)) = rest := by
    have htext := toList_of_segments hsegments
    rw [← hbefore, hquery, String.toList_append, List.append_cancel_left_eq] at htext
    rw [← htext, String.ofList_toList]
  have hposition : position query (['&'].intercalate (segment :: later)) = before.utf8ByteSize := by
    rw [position, hrest, hquery, String.utf8ByteSize_append, Nat.add_sub_cancel]
  rw [parse_of_nameless hsegments hearlier (not_not.mpr hsegment), hposition, hrest]

theorem exists_stop (h : ¬ ∀ s ∈ segments query, IsNamed s) :
    ∃ (earlier : List (List Char)) (segment : List Char) (later : List (List Char))
      (before rest : String), segments query = earlier ++ segment :: later ∧
      (∀ s ∈ earlier, IsNamed s) ∧ segment.head? = some '=' ∧
      before.toList = earlier.flatMap (· ++ ['&']) ∧ query = before ++ rest := by
  obtain ⟨earlier, segment, later, hsegments, hearlier, hsegment⟩ := exists_first_nameless h
  refine ⟨earlier, segment, later, String.ofList (earlier.flatMap (· ++ ['&'])),
    String.ofList (['&'].intercalate (segment :: later)), hsegments, hearlier,
    not_not.mp hsegment, String.toList_ofList, ?_⟩
  rw [← String.toList_inj, String.toList_append, String.toList_ofList, String.toList_ofList]
  exact toList_of_segments hsegments

end

theorem decodeComponent_error {s : String} {e : QueryError} (h : decodeComponent s = .error e) :
    ∃ reason, e = .invalidValue "uri component" reason := by
  unfold decodeComponent at h
  split at h
  · simp at h
  · exact ⟨_, (Except.error.inj h).symm⟩

theorem readSegment_eq_ok {segment : List Char} {pair : String × String} :
    readSegment segment = .ok pair ↔ Decodes segment pair := by
  simp only [readSegment, bind_eq_ok, pure_eq_ok, Except.ok.injEq, Decodes]
  constructor
  · rintro ⟨name, hname, value, hvalue, rfl⟩
    exact ⟨hname, hvalue⟩
  · rintro ⟨hname, hvalue⟩
    exact ⟨pair.1, hname, pair.2, hvalue, rfl⟩

theorem mapM_readSegment_eq_ok {ss : List (List Char)} {pairs : List (String × String)} :
    ss.mapM readSegment = .ok pairs ↔ List.Forall₂ Decodes ss pairs := by
  induction ss generalizing pairs with
  | nil => simp
  | cons s ss ih =>
    simp only [List.mapM_cons, bind_eq_ok, pure_eq_ok, Except.ok.injEq, readSegment_eq_ok, ih,
      List.forall₂_cons_left_iff]
    constructor
    · rintro ⟨pair, hpair, rest, hrest, rfl⟩
      exact ⟨pair, rest, hpair, hrest, rfl⟩
    · rintro ⟨pair, rest, hpair, hrest, rfl⟩
      exact ⟨pair, hpair, rest, hrest, rfl⟩

/-- Segments fail where their components do, name before value. -/
theorem mapM_readSegment_failAlike (ss : List (List Char)) :
    FailAlike (ss.mapM readSegment) ((ss.flatMap fun s =>
      [String.ofList (nameText s), String.ofList (valueText s)]).mapM decodeComponent) := by
  induction ss with
  | nil => trivial
  | cons s ss ih =>
    simp only [List.flatMap_cons, List.cons_append, List.nil_append, List.mapM_cons, readSegment,
      bind_assoc]
    refine (FailAlike.of_eq rfl).bind fun name _ _ _ => ?_
    refine (FailAlike.of_eq rfl).bind fun value _ _ _ => ?_
    simp only [pure_eq_ok, ok_bind]
    exact ih.bind fun _ _ _ _ => trivial

theorem parse_eq_ok_of_named {query : String} {pairs : List (String × String)}
    (h : ∀ s ∈ segments query, IsNamed s) :
    parse query = .ok pairs ↔ List.Forall₂ Decodes (filledSegments query) pairs := by
  rw [parse_of_named h, mapM_readSegment_eq_ok]

theorem parse_eq_error_of_named {query : String} {e : QueryError}
    (h : ∀ s ∈ segments query, IsNamed s) :
    parse query = .error e ↔ ∃ done component rest, components query = done ++ component :: rest ∧
      (∀ c ∈ done, ∃ text, decodeComponent c = .ok text) ∧ decodeComponent component = .error e := by
  rw [parse_of_named h, (mapM_readSegment_failAlike _).error_iff, mapM_eq_error]
  rfl

/-- **Options are read by their grammar.** For every text there is one result that
the grammar gives, and it is the one that the parser returns. -/
theorem parse_eq_iff_reads (query : String) (r : Except QueryError (List (String × String))) :
    parse query = r ↔ Reads query r := by
  constructor
  · rintro rfl
    by_cases hnamed : ∀ s ∈ segments query, IsNamed s
    · cases hparse : parse query with
      | ok pairs => exact .decoded hnamed ((parse_eq_ok_of_named hnamed).mp hparse)
      | error e =>
        obtain ⟨done, component, rest, hcomponents, hdone, hcomponent⟩ :=
          (parse_eq_error_of_named hnamed).mp hparse
        obtain ⟨reason, rfl⟩ := decodeComponent_error hcomponent
        exact .undecodable hnamed hcomponents hdone hcomponent
    · obtain ⟨earlier, segment, later, before, rest, hsegments, hearlier, hsegment, hbefore,
        hquery⟩ := exists_stop hnamed
      rw [parse_of_stopped hsegments hearlier hsegment hbefore hquery]
      exact .stopped hsegments hearlier hsegment hbefore hquery
  · intro h
    cases h with
    | stopped hsegments hearlier hsegment hbefore hquery =>
      exact parse_of_stopped hsegments hearlier hsegment hbefore hquery
    | undecodable hnamed hcomponents hdone hcomponent =>
      exact (parse_eq_error_of_named hnamed).mpr ⟨_, _, _, hcomponents, hdone, hcomponent⟩
    | decoded hnamed hpairs => exact (parse_eq_ok_of_named hnamed).mpr hpairs

/-- An early byte that is no text does not hide the missing name behind it. -/
example : parse "a=%FF&&é=1&=v&b" =
    .error (.parse 12 "Unexpected trailing content: '=v&b'") := by cbv

end ODataQuery.QueryOptions
