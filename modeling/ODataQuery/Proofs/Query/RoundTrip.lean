import ODataQuery.Proofs.OrderedMap
import ODataQuery.Proofs.Query.Options
import ODataQuery.Proofs.Uri
import ODataQuery.Query.Compile

namespace ODataQuery

open Text (isBlank)

namespace EntityQuery

/-- The options that a resource carries behind its first `?`. -/
def resourceOptions (q : EntityQuery) : String :=
  String.ofList (q.resource.toList.dropWhile (· != '?')).tail

variable {q : EntityQuery}

theorem no_mark_resourcePath : '?' ∉ q.resourcePath.toList := by
  rw [resourcePath, String.toList_ofList]
  exact Text.mark_not_mem_takeWhile _

theorem resource_eq_path (h : '?' ∉ q.resource.toList) :
    q.resourcePath = q.resource ∧ q.resourceOptions = "" := by
  simp [resourcePath, resourceOptions, Text.takeWhile_ne_eq_self h, Text.dropWhile_ne_eq_nil h]

theorem resource_eq_append (h : '?' ∈ q.resource.toList) :
    q.resource = q.resourcePath ++ "?" ++ q.resourceOptions := by
  obtain ⟨before, behind, hsplit, hbefore⟩ := List.eq_append_cons_of_mem h
  rw [← String.toList_inj]
  simp [resourcePath, resourceOptions, hsplit, Text.takeWhile_ne_append hbefore,
    Text.dropWhile_ne_append hbefore]

/-- The options of a query stand behind those of its resource. -/
theorem carries_attach {encoded : String} {es entries : List (String × String)}
    (hresource : QueryOptions.parse q.resourceOptions = .ok es)
    (hencoded : QueryOptions.parse encoded = .ok entries) (hempty : encoded = "" → entries = []) :
    Uri.Carries (attach q.resource encoded) q.resourcePath (es ++ entries) := by
  refine ⟨no_mark_resourcePath, ?_⟩
  unfold attach
  by_cases hmark : '?' ∈ q.resource.toList
  · -- the resource has options of its own, so an ampersand joins the two
    refine .inr ?_
    rw [resource_eq_append hmark]
    split
    · rename_i hnil
      rw [hempty (String.isEmpty_iff.mp hnil), List.append_nil]
      exact ⟨_, rfl, hresource⟩
    · exact ⟨q.resourceOptions ++ "&" ++ encoded, by simp [String.append_assoc],
        QueryOptions.parse_append hresource hencoded⟩
  · obtain ⟨hpath, hnone⟩ := resource_eq_path hmark
    have hes : es = [] := by
      rw [hnone, QueryOptions.parse_empty] at hresource
      exact (Except.ok.inj hresource).symm
    rw [hpath]
    split
    · rename_i hnil
      exact .inl ⟨rfl, by simp [hes, hempty (String.isEmpty_iff.mp hnil)]⟩
    · exact .inr ⟨encoded, by simp, by simpa [hes] using hencoded⟩

/-- An option text begins behind a mark and a resource is not blank at its ends. -/
theorem strip_attach {encoded : String}
    (hresource : Text.strip isBlank q.resource.toList = q.resource.toList)
    (hlast : ∀ c ∈ encoded.toList.getLast?, isBlank c = false) :
    Text.strip isBlank (attach q.resource encoded).toList = (attach q.resource encoded).toList := by
  obtain ⟨hfront, hback⟩ := Text.strip_eq_self_iff.mp hresource
  unfold attach
  split
  · exact hresource
  · rename_i hencoded
    rw [Text.strip_eq_self_iff]
    constructor
    · intro c hc
      rw [String.toList_append, String.toList_append, List.append_assoc, List.head?_append] at hc
      rcases Option.or_eq_some_iff.mp hc with hc | ⟨-, hc⟩
      · exact hfront c hc
      · split at hc <;>
          · have hmark := Option.some.inj hc
            exact hmark ▸ by decide
    · intro c hc
      rw [String.toList_append, List.getLast?_append] at hc
      rcases Option.or_eq_some_iff.mp hc with hc | ⟨hnil, -⟩
      · exact hlast c hc
      · rw [List.getLast?_eq_none_iff, String.toList_eq_nil_iff] at hnil
        exact absurd (String.isEmpty_iff.mpr hnil) hencoded

def builtInNames : List String :=
  ["$filter", "$orderby", "$skip", "$top", "$expand", "$select", "$count"]

theorem mem_keys_options {t : EntityType} {o : CompileOptions} {m : OptionMap}
    (h : q.options t o = .ok m) {name : String} :
    name ∈ m.keys ↔ name ∈ builtInNames ∨ name ∈ q.parameters.keys := by
  simp only [options, bind_eq_ok, pure_eq_ok, Except.ok.injEq] at h
  obtain ⟨filter, -, order, -, expand, -, select, -, rfl⟩ := h
  rw [OrderedMap.mem_keys_insertAll, OrderedMap.mem_keys_ofList, List.map_map]
  rfl

theorem isPlainName_builtIn {name : String} (h : name ∈ builtInNames) : IsPlainName name := by
  simp only [builtInNames, List.mem_cons, List.not_mem_nil, or_false] at h
  rcases h with rfl | rfl | rfl | rfl | rfl | rfl | rfl <;>
    exact ⟨by decide, by decide, by decide, QueryOptions.decodeComponent_eq_self (by decide)⟩

/-- What options list, in order: nothing for an absent value, one entry for a
single text, and one for each text of a list. -/
inductive Lists : List (String × Option ParamValue) → List (String × String) → Prop
  | nil : Lists [] []
  | absent {name rest entries} : Lists rest entries → Lists ((name, none) :: rest) entries
  | scalar {name text rest entries} : Lists rest entries →
      Lists ((name, some (.scalar text)) :: rest) ((name, text) :: entries)
  | list {name texts rest entries} : Lists rest entries →
      Lists ((name, some (.list texts)) :: rest) (texts.map (name, ·) ++ entries)

theorem lists_expanded (m : OptionMap) : Lists m.entries m.expanded := by
  unfold OptionMap.expanded
  induction m.entries with
  | nil => exact .nil
  | cons e rest ih =>
    obtain ⟨name, value⟩ := e
    match value with
    | none => exact .absent ih
    | some (.scalar _) => exact .scalar ih
    | some (.list _) => exact .list ih

/-- **What was compiled is read back whole.** The options of a compiled URI are those that the
resource carried, followed by the entries of the option map in order, each value as it was before
it was encoded; the resource is the path of the query, behind the base when there is one. -/
theorem parse_joinBase_compile (q : EntityQuery) (r : Resolver) (o : CompileOptions)
    (base : Option String) {uri : String} {es : List (String × String)}
    (hcompile : q.compile r o = .ok uri) (hresource : Text.trim q.resource = q.resource)
    (hbase : ∀ b ∈ base, '?' ∉ b.toList ∧ ∀ c ∈ b.toList.head?, isBlank c = false)
    (hnames : ∀ name ∈ q.parameters.keys, IsPlainName name)
    (hes : QueryOptions.parse q.resourceOptions = .ok es) :
    ∃ options entries parsed, q.options (r.entityType q.resourcePath) o = .ok options ∧
      Lists options.entries entries ∧ Uri.parse (Uri.joinBase base uri) = .ok parsed ∧
      parsed.options = es ++ entries ∧ Uri.IsPlaced base q.resourcePath parsed.resource := by
  simp only [compile, bind_eq_ok, pure_eq_ok, Except.ok.injEq] at hcompile
  obtain ⟨-, -, options, hoptions, rfl⟩ := hcompile
  have hplain : ∀ name ∈ options.keys, IsPlainName name := by
    intro name hname
    exact ((mem_keys_options hoptions).mp hname).elim isPlainName_builtIn (hnames name)
  have hcarries : Uri.Carries (attach q.resource options.encode) q.resourcePath
      (es ++ options.expanded) :=
    carries_attach hes (OptionMap.parse_encode hplain) OptionMap.encode_eq_empty_iff.mp
  have htrim : Text.strip isBlank (attach q.resource options.encode).toList =
      (attach q.resource options.encode).toList := by
    refine strip_attach ?_ fun c => OptionMap.encode_last
    rw [← Text.toList_trim, hresource]
  refine ⟨options, options.expanded, ⟨Uri.joinBase base q.resourcePath, es ++ options.expanded⟩,
    hoptions, lists_expanded options, ?_, rfl, Uri.isPlaced_joinBase base _⟩
  cases base with
  | none => exact Uri.parse_of_carries hcarries htrim
  | some b =>
    obtain ⟨hmark, hfirst⟩ := hbase b rfl
    exact Uri.parse_of_carries (Uri.carries_joinBase hcarries hmark)
      (Uri.strip_joinBase hfirst (Text.strip_eq_self_iff.mp htrim).2)

/-- A resource with an option of its own, and values that need encoding. -/
def noted : EntityQuery where
  resource := "/Orders?lang=en"
  filter := some (.binary .eq (.property ⟨["note"]⟩) (.literal .string (.string "50% & 'é'")))
  parameters := .ofList [("tag", .list ["a=b", ""])]

def notedUri : String :=
  "/Orders?lang=en&$filter=note%20eq%20'50%25%20%26%20''%C3%A9'''&tag=a%3Db&tag="

theorem parse_noted : noted.compile (.absent .none) {} = .ok notedUri ∧
    ∃ options entries parsed, noted.options (.anonymous .none) {} = .ok options ∧
      Lists options.entries entries ∧
      Uri.parse (Uri.joinBase (some "https://host/svc/") notedUri) = .ok parsed ∧
      parsed.options = [("lang", "en")] ++ entries ∧
      Uri.IsPlaced (some "https://host/svc/") "/Orders" parsed.resource := by
  have hcompile : noted.compile (.absent .none) {} = .ok notedUri := by rfl
  refine ⟨hcompile, parse_joinBase_compile noted (.absent .none) {} (some "https://host/svc/")
    hcompile (by rfl) ?_ ?_ (QueryOptions.parse_eq_ok.mpr ⟨by decide, by rfl⟩)⟩
  · intro b hb
    obtain rfl := Option.some.inj hb
    refine ⟨by decide, ?_⟩
    rintro c ⟨⟩
    decide
  · intro name hname
    obtain rfl : name = "tag" := List.mem_singleton.mp hname
    exact ⟨by decide, by decide, by decide, QueryOptions.decodeComponent_eq_self (by decide)⟩

end EntityQuery

end ODataQuery
