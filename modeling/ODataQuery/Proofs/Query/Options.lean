import ODataQuery.Proofs.Query.Segments
import ODataQuery.Proofs.Text.Percent

namespace ODataQuery

/-- A name that is written as it is and read back as the same name. -/
structure IsPlainName (name : String) : Prop where
  ne_empty : name ≠ ""
  no_equals : '=' ∉ name.toList
  no_ampersand : '&' ∉ name.toList
  decoded : QueryOptions.decodeComponent name = .ok name

namespace QueryOptions

theorem decodeComponent_encodeComponent (s : String) :
    decodeComponent (Percent.encodeComponent s) = .ok s := by
  simp only [decodeComponent, Percent.encodeComponent, String.toList_ofList, Percent.decode_encode,
    String.ofList_toList]

theorem decodeComponent_eq_self {s : String} (h : '%' ∉ s.toList) : decodeComponent s = .ok s := by
  simp only [decodeComponent, Percent.decode_eq_self h, String.ofList_toList]

theorem parse_empty : parse "" = .ok [] := parse_eq_ok.mpr ⟨by decide, rfl⟩

/-- Option texts are joined by an ampersand. -/
theorem parse_append {a b : String} {xs ys : List (String × String)} (ha : parse a = .ok xs)
    (hb : parse b = .ok ys) : parse (a ++ "&" ++ b) = .ok (xs ++ ys) := by
  rw [parse_eq_ok] at ha hb ⊢
  have hlist : (a ++ "&" ++ b).toList = a.toList ++ '&' :: b.toList := by simp
  have hsegments : segments (a ++ "&" ++ b) = segments a ++ segments b := by
    rw [segments, hlist, List.splitOn_append_cons_self]
    rfl
  rw [filledSegments, hsegments, List.forall_mem_append, List.filter_append, List.mapM_append]
  refine ⟨⟨ha.1, hb.1⟩, ?_⟩
  rw [filledSegments] at ha hb
  rw [ha.2, hb.2]
  rfl

/-- An entry as `encode` writes it. -/
def entryText (e : String × String) : String := e.1 ++ "=" ++ Percent.encodeComponent e.2

theorem toList_entryText (e : String × String) :
    (entryText e).toList = e.1.toList ++ '=' :: Percent.encode e.2.toList := by
  simp [entryText, Percent.encodeComponent]

theorem entryText_ne_nil (e : String × String) : (entryText e).toList ≠ [] := by
  simp [toList_entryText]

/-- An entry ends on an encoded character or on its equals sign. -/
theorem entryText_last {e : String × String} {c : Char} (h : c ∈ (entryText e).toList.getLast?) :
    Text.isBlank c = false := by
  have hlast : c ∈ ('=' :: Percent.encode e.2.toList).getLast? := by
    rw [toList_entryText, List.getLast?_append] at h
    rcases Option.or_eq_some_iff.mp h with h | ⟨h, -⟩
    · exact h
    · simp at h
  rcases List.mem_cons.mp (List.mem_of_getLast? hlast) with rfl | hc
  · decide
  · exact (Percent.encode_separable hc).2

theorem intercalate_last {es : List (String × String)} {c : Char}
    (h : c ∈ (['&'].intercalate (es.map fun e => (entryText e).toList)).getLast?) :
    Text.isBlank c = false := by
  induction es with
  | nil => simp at h
  | cons e es ih =>
    cases es with
    | nil => exact entryText_last (by simpa using h)
    | cons f fs =>
      rw [List.map_cons, List.map_cons, List.intercalate_cons_cons, List.getLast?_append] at h
      rcases Option.or_eq_some_iff.mp h with h | ⟨-, h⟩
      · exact ih h
      · simp at h
        subst h
        decide

section

variable {e : String × String} (h : IsPlainName e.1)
include h

theorem no_ampersand_entryText : '&' ∉ (entryText e).toList := by
  rw [toList_entryText, List.mem_append, List.mem_cons]
  rintro (hname | heq | hvalue)
  · exact h.no_ampersand hname
  · exact absurd heq (by decide)
  · exact (Percent.encode_separable hvalue).1 rfl

theorem isNamed_entryText : IsNamed (entryText e).toList := by
  rw [toList_entryText]
  cases hname : e.1.toList with
  | nil => exact absurd (String.toList_eq_nil_iff.mp hname) h.ne_empty
  | cons c cs =>
    rintro ⟨⟩
    exact h.no_equals (by rw [hname]; exact List.mem_cons_self)

theorem readSegment_entryText : readSegment (entryText e).toList = .ok e := by
  have hvalue : String.ofList (Percent.encode e.2.toList) = Percent.encodeComponent e.2 := rfl
  simp only [readSegment, nameText, valueText, toList_entryText,
    Text.takeWhile_ne_append h.no_equals, Text.dropWhile_ne_append h.no_equals, List.tail_cons,
    String.ofList_toList, h.decoded, hvalue, decodeComponent_encodeComponent]
  rfl

end

theorem mapM_readSegment {es : List (String × String)} (h : ∀ e ∈ es, IsPlainName e.1) :
    (es.map fun e => (entryText e).toList).mapM readSegment = .ok es := by
  induction es with
  | nil => rfl
  | cons e es ih =>
    rw [List.map_cons, List.mapM_cons, readSegment_entryText (h e List.mem_cons_self),
      ih fun g hg => h g (List.mem_cons_of_mem _ hg)]
    rfl

/-- Entries with plain names are read back one for one. -/
theorem parse_entries {es : List (String × String)} (h : ∀ e ∈ es, IsPlainName e.1) :
    parse ("&".intercalate (es.map entryText)) = .ok es := by
  by_cases hnil : es = []
  · subst hnil
    exact parse_empty
  · have hamp : ∀ l ∈ es.map fun e => (entryText e).toList, '&' ∉ l := by
      intro l hl
      obtain ⟨e, he, rfl⟩ := List.mem_map.mp hl
      exact no_ampersand_entryText (h e he)
    have hsegments : segments ("&".intercalate (es.map entryText)) =
        es.map fun e => (entryText e).toList := by
      rw [segments, String.toList_intercalate, List.map_map]
      exact List.splitOn_intercalate '&' hamp (by simpa using hnil)
    rw [parse_eq_ok, filledSegments, hsegments]
    constructor
    · intro l hl
      obtain ⟨e, he, rfl⟩ := List.mem_map.mp hl
      exact isNamed_entryText (h e he)
    · rw [List.filter_eq_self.mpr ?_, mapM_readSegment h]
      intro l hl
      obtain ⟨e, he, rfl⟩ := List.mem_map.mp hl
      simpa using entryText_ne_nil e

end QueryOptions

theorem OptionMap.encode_eq (m : OptionMap) :
    m.encode = "&".intercalate (m.expanded.map QueryOptions.entryText) := rfl

theorem OptionMap.mem_keys_of_mem_expanded {m : OptionMap} {e : String × String}
    (h : e ∈ m.expanded) : e.1 ∈ m.keys := by
  obtain ⟨⟨name, value⟩, hentry, he⟩ := List.mem_flatMap.mp h
  have hname : e.1 = name := by
    match value, he with
    | some (.scalar _), he => rw [List.mem_singleton.mp he]
    | some (.list _), he =>
      obtain ⟨_, -, rfl⟩ := List.mem_map.mp he
      rfl
  exact hname ▸ List.mem_map_of_mem hentry

/-- A map with plain names encodes to text that parses to its entries. -/
theorem OptionMap.parse_encode {m : OptionMap} (h : ∀ name ∈ m.keys, IsPlainName name) :
    QueryOptions.parse m.encode = .ok m.expanded :=
  QueryOptions.parse_entries fun _ he => h _ (mem_keys_of_mem_expanded he)

theorem OptionMap.encode_eq_empty_iff {m : OptionMap} : m.encode = "" ↔ m.expanded = [] := by
  rw [encode_eq, ← String.toList_eq_nil_iff, String.toList_intercalate, List.map_map]
  cases m.expanded with
  | nil => simp
  | cons e es => cases es <;> simp [QueryOptions.entryText]

theorem OptionMap.encode_last {m : OptionMap} {c : Char} (h : c ∈ m.encode.toList.getLast?) :
    Text.isBlank c = false := by
  rw [encode_eq, String.toList_intercalate, List.map_map] at h
  exact QueryOptions.intercalate_last h

end ODataQuery
