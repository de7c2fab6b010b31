import ODataQuery.Proofs.Text.Blank
import ODataQuery.Proofs.Text.Segment
import ODataQuery.PropertyPath

namespace ODataQuery.PropertyPath

theorem toList_dotted (p : PropertyPath) :
    p.dotted.toList = ['.'].intercalate (p.segments.map String.toList) :=
  String.toList_intercalate

/-- A dotted form begins as its first segment does. -/
theorem dotted_head {p : PropertyPath} {s : String} {rest : List String} {c : Char}
    {cs : List Char} (h : p.segments = s :: rest) (hs : s.toList = c :: cs) :
    ∃ ds, p.dotted.toList = c :: ds := by
  rw [toList_dotted, h, List.map_cons, hs]
  cases rest with
  | nil => exact ⟨cs, by simp⟩
  | cons t rest => exact ⟨_, by rw [List.map_cons, List.intercalate_cons_cons]; rfl⟩

theorem splitOn_dotted {p : PropertyPath} (hne : p.segments ≠ [])
    (hpoint : ∀ s ∈ p.segments, '.' ∉ s.toList) :
    p.dotted.toList.splitOn '.' = p.segments.map String.toList := by
  rw [toList_dotted, List.splitOn_intercalate]
  · simpa using hpoint
  · simpa using hne

theorem dotted_inj {p q : PropertyPath} (hp : p.segments ≠ []) (hq : q.segments ≠ [])
    (hpoint : ∀ s ∈ p.segments, '.' ∉ s.toList) (hpoint' : ∀ s ∈ q.segments, '.' ∉ s.toList)
    (h : p.dotted.toList = q.dotted.toList) : p = q := by
  have hsegments : p.segments.map String.toList = q.segments.map String.toList := by
    rw [← splitOn_dotted hp hpoint, ← splitOn_dotted hq hpoint', h]
  have hinj := (List.map_inj_right fun _ _ => String.toList_inj.mp).mp hsegments
  exact congrArg PropertyPath.mk hinj

theorem segments_parse_ne_nil (s : String) : (parse s).segments ≠ [] := by
  rw [parse, Ne, List.map_eq_nil_iff]
  exact List.splitOn_ne_nil '.' s.toList

theorem exists_of_mem_segments_parse {s segment : String} (h : segment ∈ (parse s).segments) :
    ∃ piece ∈ s.toList.splitOn '.', segment.toList = Text.strip Text.isBlank piece := by
  obtain ⟨piece, hpiece, rfl⟩ := List.mem_map.mp h
  exact ⟨piece, hpiece, String.toList_ofList⟩

theorem point_not_mem_segment {s segment : String} (h : segment ∈ (parse s).segments) :
    '.' ∉ segment.toList := by
  obtain ⟨piece, hpiece, hsegment⟩ := exists_of_mem_segments_parse h
  intro hpoint
  rw [hsegment] at hpoint
  exact Text.mark_not_mem_of_mem_splitOn hpiece (Text.mem_of_mem_strip hpoint)

theorem trim_segment {s segment : String} (h : segment ∈ (parse s).segments) :
    Text.trim segment = segment := by
  obtain ⟨piece, -, hsegment⟩ := exists_of_mem_segments_parse h
  apply String.toList_inj.mp
  rw [Text.toList_trim, hsegment, Text.strip_strip]

theorem parse_dotted {p : PropertyPath} (hne : p.segments ≠ [])
    (hpoint : ∀ s ∈ p.segments, '.' ∉ s.toList) (htrim : ∀ s ∈ p.segments, Text.trim s = s) :
    parse p.dotted = p := by
  have hsegments : p.segments.map Text.trim = p.segments := by
    rw [List.map_congr_left htrim, List.map_id']
  rw [parse, splitOn_dotted hne hpoint, List.map_map]
  exact congrArg PropertyPath.mk hsegments

/-- **A path that was read is the one that its dotted form reads as.** -/
theorem parse_dotted_parse (s : String) : parse (parse s).dotted = parse s :=
  parse_dotted (segments_parse_ne_nil s) (fun _ => point_not_mem_segment) fun _ => trim_segment

/-- A path with segments of which none holds a point or an outer blank. -/
structure Writable (p : PropertyPath) : Prop where
  nonempty : p.segments ≠ []
  pointless : ∀ s ∈ p.segments, '.' ∉ s.toList
  trimmed : ∀ s ∈ p.segments, Text.trim s = s

theorem writable_parse (s : String) : Writable (parse s) where
  nonempty := segments_parse_ne_nil s
  pointless _ := point_not_mem_segment
  trimmed _ := trim_segment

theorem parse_dotted_eq_self_iff {p : PropertyPath} : parse p.dotted = p ↔ Writable p := by
  constructor
  · intro h
    rw [← h]
    exact writable_parse p.dotted
  · intro h
    exact parse_dotted h.nonempty h.pointless h.trimmed

/-- **The dotted form determines the paths that can be written, and no others.** Segments are
read off their dotted form exactly when there are some, without points and outer blanks. Each
path that was read is of this kind, so it is the one that its dotted form reads as, and no
other path that was read has this form. -/
theorem dotted_determines :
    (∀ segments, (parse (dotted ⟨segments⟩)).segments = segments ↔ Writable ⟨segments⟩) ∧
    (∀ s, Writable (parse s) ∧ parse (parse s).dotted = parse s) ∧
    ∀ s s', (parse s).dotted = (parse s').dotted ↔ parse s = parse s' := by
  refine ⟨fun segments => ?_, fun s => ⟨writable_parse s, parse_dotted_parse s⟩, fun s s' => ?_⟩
  · rw [← parse_dotted_eq_self_iff, PropertyPath.mk.injEq]
  · constructor
    · intro h
      rw [← parse_dotted_parse s, h, parse_dotted_parse]
    · intro h
      rw [h]

/-- Without segments nothing is written, and nothing reads as one segment. -/
example : parse (dotted ⟨[]⟩) = ⟨[""]⟩ := rfl

end ODataQuery.PropertyPath
