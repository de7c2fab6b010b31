import ODataQuery.Proofs.Schema.Walk

namespace ODataQuery.Schema

variable {s : Schema} {d : TypeDefinition}

def types (s : Schema) : List TypeDefinition := s.entityTypes ++ s.complexTypes

/-- Every type that a definition refers to is declared. -/
structure Settles (s : Schema) (d : TypeDefinition) : Prop where
  complexType : ∀ p ∈ d.properties, ∀ target ∈ p.complexType, ∃ e, s.complexType? target = some e
  target : ∀ n ∈ d.navigations, ∃ e, s.entityType? n.target = some e

theorem checkProperty_eq_ok {p : DataProperty} :
    s.checkProperty d p = .ok () ↔
      ∀ target ∈ p.complexType, ∃ e, s.complexType? target = some e := by
  unfold checkProperty
  cases p.complexType with
  | none => simp
  | some target => cases h : s.complexType? target <;> simp [h]

theorem checkNavigation_eq_ok {n : NavigationProperty} :
    s.checkNavigation d n = .ok () ↔ ∃ e, s.entityType? n.target = some e := by
  unfold checkNavigation
  cases h : s.entityType? n.target <;> simp

theorem checkType_eq_ok : s.checkType d = .ok () ↔ s.Settles d := by
  simp only [checkType, bind_eq_ok, forM_eq_ok, checkProperty_eq_ok, checkNavigation_eq_ok]
  constructor
  · rintro ⟨-, hproperties, hnavigations⟩
    exact ⟨hproperties, hnavigations⟩
  · intro h
    exact ⟨(), h.complexType, h.target⟩

theorem validate_eq_ok : s.validate = .ok () ↔ ∀ d ∈ s.types, s.Settles d := by
  simp only [validate, forM_eq_ok, checkType_eq_ok, types]

theorem entityType?_mem {name : String} (h : s.entityType? name = some d) : d ∈ s.types :=
  List.mem_append_left _ (List.mem_of_find?_eq_some h)

theorem complexType?_mem {name : String} (h : s.complexType? name = some d) : d ∈ s.types :=
  List.mem_append_right _ (List.mem_of_find?_eq_some h)

theorem resource?_mem {name : String} (h : s.resource? name = some d) : d ∈ s.types := by
  obtain hfound | ⟨-, hfound⟩ := Option.or_eq_some_iff.mp h
  · exact List.mem_append_left _ (List.mem_of_find?_eq_some hfound)
  · exact entityType?_mem hfound

/-- A step leads to a declared type if it leads anywhere. -/
theorem step?_mem {segment : String} {info : PropertyInfo} {next : TypeDefinition}
    (h : s.step? d segment = some (info, some next)) : next ∈ s.types := by
  obtain ⟨p, -, -, hnext⟩ | ⟨-, n, -, -, hnext⟩ := step?_eq_some.mp h
  · obtain ⟨target, -, htarget⟩ := Option.bind_eq_some_iff.mp hnext.symm
    exact complexType?_mem htarget
  · exact entityType?_mem hnext.symm

/-- A walk that starts on a declared type ends on one, if it ends on any. -/
theorem walkFrom_mem {root : TypeDefinition} {path : PropertyPath} {segments : List String}
    {current : Option TypeDefinition} {infos : List PropertyInfo} {last : TypeDefinition}
    (hcurrent : ∀ d ∈ current, d ∈ s.types)
    (h : s.walkFrom root path current segments = .ok (infos, some last)) : last ∈ s.types :=
  walkFrom_invariant (fun _ _ _ _ _ => step?_mem) hcurrent h

end ODataQuery.Schema

namespace ODataQuery.Resolver

variable {s : Schema} {resource : String}

theorem entityType_of_some {d : TypeDefinition} (h : s.resource? resource = some d) :
    (Resolver.schema s).entityType resource = .declared s d := by
  simp only [entityType, schema, h, Option.map_some, Option.getD_some]

theorem entityType_of_none (h : s.resource? resource = none) :
    (Resolver.schema s).entityType resource = .anonymous s.naming := by
  simp only [entityType, schema, h, Option.map_none, Option.getD_none]

end ODataQuery.Resolver
