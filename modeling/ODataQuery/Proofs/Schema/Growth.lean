import ODataQuery.Proofs.Schema.Bisimulation
import ODataQuery.Proofs.Schema.Validity

/-!
# Schemas grow without disturbing their queries

A type that is added stands behind those already declared, so a name that is found keeps
its meaning. In a valid schema every name that a walk looks up is found: whatever is added
later, each path from a declared type leads where it led before. A name that was not yet
declared may come to mean something, which is why the query has to start on a resource
that the valid schema has.
-/

namespace ODataQuery

/-- One schema comes from the other by adding types, in any order. -/
inductive Schema.Grows : Schema → Schema → Prop
  | refl (s : Schema) : Grows s s
  | addEntityType {s s' : Schema} (h : Grows s s') (d : TypeDefinition) :
      Grows s (s'.addEntityType d)
  | addComplexType {s s' : Schema} (h : Grows s s') (d : TypeDefinition) :
      Grows s (s'.addComplexType d)

namespace Schema

/-- What was added stands behind what was there. -/
theorem Grows.eq_append {s s' : Schema} (h : s.Grows s') :
    ∃ entityTypes complexTypes,
      s' = ⟨s.naming, s.entityTypes ++ entityTypes, s.complexTypes ++ complexTypes⟩ := by
  induction h with
  | refl => exact ⟨[], [], by simp⟩
  | addEntityType _ d ih =>
    obtain ⟨es, cs, rfl⟩ := ih
    exact ⟨es ++ [d], cs, by simp [Schema.addEntityType]⟩
  | addComplexType _ d ih =>
    obtain ⟨es, cs, rfl⟩ := ih
    exact ⟨es, cs ++ [d], by simp [Schema.addComplexType]⟩

theorem find?_append_of_some {ds es : List TypeDefinition} {f : TypeDefinition → Bool}
    {d : TypeDefinition} (h : ds.find? f = some d) : (ds ++ es).find? f = some d := by
  rw [List.find?_append, h]
  rfl

namespace Grows

variable {s s' : Schema} (h : s.Grows s')

include h

theorem naming_eq : s'.naming = s.naming := by
  obtain ⟨es, cs, rfl⟩ := h.eq_append
  rfl

theorem entityType?_eq {name : String} {d : TypeDefinition} (hd : s.entityType? name = some d) :
    s'.entityType? name = some d := by
  obtain ⟨es, cs, rfl⟩ := h.eq_append
  exact find?_append_of_some hd

theorem complexType?_eq {name : String} {d : TypeDefinition} (hd : s.complexType? name = some d) :
    s'.complexType? name = some d := by
  obtain ⟨es, cs, rfl⟩ := h.eq_append
  exact find?_append_of_some hd

/-- A resource that a declared type has is found among the types first declared. -/
theorem resource?_eq {name : String} (hname : ∃ d ∈ s.entityTypes, d.resource = some name) :
    ∃ d ∈ s.types, s.resource? name = some d ∧ s'.resource? name = some d := by
  obtain ⟨e, he, hresource⟩ := hname
  obtain ⟨d, hd⟩ : ∃ d, s.entityTypes.find? (·.resource == some name) = some d := by
    apply Option.isSome_iff_exists.mp
    exact List.find?_isSome.mpr ⟨e, he, by simp [hresource]⟩
  obtain ⟨es, cs, rfl⟩ := h.eq_append
  refine ⟨d, List.mem_append_left _ (List.mem_of_find?_eq_some hd), ?_, ?_⟩
  · rw [resource?, hd, Option.some_or]
  · rw [resource?, find?_append_of_some hd, Option.some_or]

/-- A settled definition takes the same steps. -/
theorem step?_eq {d : TypeDefinition} (hd : s.Settles d) (segment : String) :
    s'.step? d segment = s.step? d segment := by
  unfold step?
  cases hp : d.properties.find? (·.name == segment) with
  | some p =>
    have hinfo : s'.dataInfo p = s.dataInfo p := by simp only [dataInfo, h.naming_eq]
    have hnext : p.complexType.bind s'.complexType? = p.complexType.bind s.complexType? := by
      cases hc : p.complexType with
      | none => rfl
      | some target =>
        obtain ⟨e, he⟩ := hd.complexType p (List.mem_of_find?_eq_some hp) target hc
        rw [Option.bind_some, Option.bind_some, he, h.complexType?_eq he]
    simp only [hinfo, hnext]
  | none =>
    cases hn : d.navigations.find? (·.name == segment) with
    | none => rfl
    | some n =>
      have hinfo : s'.navigationInfo n = s.navigationInfo n := by
        simp only [navigationInfo, h.naming_eq]
      obtain ⟨e, he⟩ := hd.target n (List.mem_of_find?_eq_some hn)
      simp only [Option.map_some, hinfo, he, h.entityType?_eq he]

/-- A declared type seen through the grown schema is like itself: each step stays among the
declared types. -/
theorem bisimulation (hvalid : ∀ d ∈ s.types, s.Settles d) :
    EntityType.Bisimulation fun t t' => ∃ d ∈ s.types, t = .declared s' d ∧ t' = .declared s d := by
  apply EntityType.Bisimulation.of_steps
  · intro d hd segment
    exact h.step?_eq (hvalid d hd) segment
  · intro d segment info next _ hnext
    exact step?_mem hnext

end Grows

/-- **Adding types is conservative.** A query on a resource of a valid schema compiles in
every larger schema as it did before, to the same text or with the same error. -/
theorem compile_of_grows {s s' : Schema} (hvalid : s.validate = .ok ()) (hgrows : s.Grows s')
    (q : EntityQuery) (hresource : ∃ d ∈ s.entityTypes, d.resource = some q.resourcePath)
    (o : CompileOptions) : q.compile (.schema s') o = q.compile (.schema s) o := by
  have hsettled := validate_eq_ok.mp hvalid
  obtain ⟨d, hd, hfound, hfound'⟩ := hgrows.resource?_eq hresource
  apply EntityQuery.compile_eq_of_bisimulation (hgrows.bisimulation hsettled)
  exact ⟨d, hd, Resolver.entityType_of_some hfound', Resolver.entityType_of_some hfound⟩

/-- Customers and orders that lead to each other, the way back through an address. -/
def market : Schema where
  entityTypes := [
    { name := "Customer", resource := some "Customers", properties := [{ name := "city" }],
      navigations := [{ name := "orders", target := "Order", isCollection := true }] },
    { name := "Order", properties := [{ name := "address", complexType := some "Address" }] }]
  complexTypes := [
    { name := "Address", navigations := [{ name := "customer", target := "Customer" }] }]

/-- Another order and another address, under names that are taken, and a reference to a
type that is not declared. -/
def crowdedMarket : Schema :=
  (market.addEntityType { name := "Order", resource := some "Customers" }).addComplexType
    { name := "Address", navigations := [{ name := "customer", target := "Nobody" }] }

def neighbours : EntityQuery where
  resource := "Customers?lang=en"
  filter := some (.lambda .any (.property ⟨["orders"]⟩)
    (.binary .eq (.property ⟨["address", "customer", "city"]⟩) (.literal .string (.string "Oslo"))))

theorem compile_crowdedMarket : market.validate = .ok () ∧ market.Grows crowdedMarket ∧
    (∃ d ∈ market.entityTypes, d.resource = some neighbours.resourcePath) ∧
    neighbours.compile (.schema crowdedMarket) {} = neighbours.compile (.schema market) {} := by
  have hvalid : market.validate = .ok () := by rfl
  have hgrows : market.Grows crowdedMarket := .addComplexType (.addEntityType (.refl market) _) _
  have hresource : ∃ d ∈ market.entityTypes, d.resource = some neighbours.resourcePath :=
    ⟨_, List.mem_cons_self, by rfl⟩
  exact ⟨hvalid, hgrows, hresource, compile_of_grows hvalid hgrows neighbours hresource {}⟩

end Schema

end ODataQuery
