import Mathlib.Data.List.Perm.Basic
import ODataQuery.Proofs.Schema.Bisimulation
import ODataQuery.Proofs.Schema.Validity

/-!
# The order of declarations

A name means its first declaration, so the order matters where a name is declared twice. Where
no name is, a look-up finds the one declaration that fits wherever it stands. Steps and
resources are look-ups, hence two orders of the same declarations cannot be told apart, even
by a schema whose references dangle.
-/

namespace ODataQuery.Schema

/-- In a list in which at most one definition fits, the place of that one does not matter. -/
theorem find?_eq_of_perm {ds es : List TypeDefinition} (h : ds.Perm es) {f : TypeDefinition → Bool}
    (hone : ds.Pairwise fun d e => ¬(f d = true ∧ f e = true)) : ds.find? f = es.find? f := by
  induction h with
  | nil => rfl
  | cons d _ ih =>
    have hrest := (List.pairwise_cons.mp hone).2
    rw [List.find?_cons, List.find?_cons, ih hrest]
  | swap d e ds =>
    have hboth : ¬(f e = true ∧ f d = true) := (List.pairwise_cons.mp hone).1 d List.mem_cons_self
    simp only [List.find?_cons]
    cases he : f e with
    | false => rfl
    | true =>
      have hd : f d = false := by simpa [he] using hboth
      rw [hd]
  | trans hleft _ ih ih' =>
    have hsymm {d e : TypeDefinition} : ¬(f d = true ∧ f e = true) → ¬(f e = true ∧ f d = true) :=
      fun hne hand => hne hand.symm
    have hmiddle := (hleft.pairwise_iff hsymm).mp hone
    exact (ih hone).trans (ih' hmiddle)

/-- Declarations whose keys, where they have one, differ are found in any order. -/
theorem find?_key_eq_of_perm {ds es : List TypeDefinition} (h : ds.Perm es)
    (key : TypeDefinition → Option String) (hkeys : (ds.filterMap key).Nodup) (name : String) :
    ds.find? (key · == some name) = es.find? (key · == some name) := by
  apply find?_eq_of_perm h
  have hpairs := List.pairwise_filterMap.mp hkeys
  apply hpairs.imp
  rintro d e hne ⟨hd, he⟩
  exact hne name (eq_of_beq hd) name (eq_of_beq he) rfl

/-- Two schemas with the same answer to each question that a compilation asks them. -/
structure AnswersAlike (s s' : Schema) : Prop where
  naming : s'.naming = s.naming
  entityType? : s'.entityType? = s.entityType?
  complexType? : s'.complexType? = s.complexType?
  resource? : s'.resource? = s.resource?

namespace AnswersAlike

variable {s s' : Schema}

theorem of_perm (hnaming : s.naming = s'.naming) (hentity : s.entityTypes.Perm s'.entityTypes)
    (hcomplex : s.complexTypes.Perm s'.complexTypes)
    (hentityNames : (s.entityTypes.map (·.name)).Nodup)
    (hcomplexNames : (s.complexTypes.map (·.name)).Nodup)
    (hresources : (s.entityTypes.filterMap (·.resource)).Nodup) : s.AnswersAlike s' := by
  have hnamed {ds es : List TypeDefinition} (h : ds.Perm es) (hnames : (ds.map (·.name)).Nodup)
      (name : String) : es.find? (·.name == name) = ds.find? (·.name == name) := by
    have hkeys : (ds.filterMap fun d => some d.name).Nodup := by
      rwa [List.filterMap_eq_map']
    exact (find?_key_eq_of_perm h (fun d => some d.name) hkeys name).symm
  have hentityType : s'.entityType? = s.entityType? := by
    funext name
    exact hnamed hentity hentityNames name
  refine ⟨hnaming.symm, hentityType, ?_, ?_⟩
  · funext name
    exact hnamed hcomplex hcomplexNames name
  · funext name
    have hresource := find?_key_eq_of_perm hentity (·.resource) hresources name
    rw [Schema.resource?, Schema.resource?, hentityType, hresource]

variable (h : s.AnswersAlike s')
include h

theorem step?_eq : s'.step? = s.step? := by
  funext d segment
  unfold step? dataInfo navigationInfo
  rw [h.naming, h.entityType?, h.complexType?]

theorem bisimulation :
    EntityType.Bisimulation fun t t' => ∃ d, True ∧ t = .declared s' d ∧ t' = .declared s d := by
  apply EntityType.Bisimulation.of_steps
  · intro d _ segment
    rw [h.step?_eq]
  · intros
    trivial

theorem compile_eq (q : EntityQuery) (o : CompileOptions) :
    q.compile (.schema s') o = q.compile (.schema s) o := by
  cases hfound : s.resource? q.resourcePath with
  | none =>
    have hfound' : s'.resource? q.resourcePath = none := by rw [h.resource?, hfound]
    -- without a definition only the convention is left
    simp only [EntityQuery.compile, Resolver.entityType_of_none hfound,
      Resolver.entityType_of_none hfound', h.naming]
  | some d =>
    have hfound' : s'.resource? q.resourcePath = some d := by rw [h.resource?, hfound]
    apply EntityQuery.compile_eq_of_bisimulation h.bisimulation
    exact ⟨d, trivial, Resolver.entityType_of_some hfound', Resolver.entityType_of_some hfound⟩

end AnswersAlike

/-- **The order of declarations does not matter.** Two schemas with the same declarations, in
which no name and no resource is declared twice, compile every query to the same text or
with the same error. -/
theorem compile_eq_of_perm {s s' : Schema} (hnaming : s.naming = s'.naming)
    (hentity : s.entityTypes.Perm s'.entityTypes) (hcomplex : s.complexTypes.Perm s'.complexTypes)
    (hentityNames : (s.entityTypes.map (·.name)).Nodup)
    (hcomplexNames : (s.complexTypes.map (·.name)).Nodup)
    (hresources : (s.entityTypes.filterMap (·.resource)).Nodup) (q : EntityQuery)
    (o : CompileOptions) : q.compile (.schema s) o = q.compile (.schema s') o := by
  have halike : s.AnswersAlike s' :=
    .of_perm hnaming hentity hcomplex hentityNames hcomplexNames hresources
  exact (halike.compile_eq q o).symm

/-- Ships and the ports that they belong to, the way back through a berth. -/
def fleet : Schema where
  naming := .camelCase
  entityTypes := [
    { name := "Ship", resource := some "Ships", properties := [{ name := "name" }],
      navigations := [{ name := "ports", target := "Port", isCollection := true }] },
    { name := "Port", resource := some "Ports",
      properties := [{ name := "berth", complexType := some "Berth" }] },
    { name := "Pilot" }]
  complexTypes := [
    { name := "Berth", navigations := [{ name := "ship", target := "Ship" }] },
    { name := "Mark", navigations := [{ name := "keeper", target := "Nobody" }] }]

def fleetFromTheBack : Schema where
  naming := .camelCase
  entityTypes := fleet.entityTypes.reverse
  complexTypes := fleet.complexTypes.reverse

def besideTheAda : EntityQuery where
  resource := "Ships"
  filter := some (.lambda .any (.property ⟨["ports"]⟩)
    (.binary .eq (.property ⟨["berth", "ship", "name"]⟩) (.literal .string (.string "Ada"))))

def besideTheAdaUri : String :=
  "Ships?$filter=Ports%2Fany(x1%3A%20x1%2FBerth%2FShip%2FName%20eq%20'Ada')"

theorem compile_fleetFromTheBack : fleet.naming = fleetFromTheBack.naming ∧
    fleet.entityTypes.Perm fleetFromTheBack.entityTypes ∧
    fleet.complexTypes.Perm fleetFromTheBack.complexTypes ∧
    (fleet.entityTypes.map (·.name)).Nodup ∧ (fleet.complexTypes.map (·.name)).Nodup ∧
    (fleet.entityTypes.filterMap (·.resource)).Nodup ∧
    besideTheAda.compile (.schema fleet) {} = .ok besideTheAdaUri ∧
    besideTheAda.compile (.schema fleetFromTheBack) {} = .ok besideTheAdaUri := by
  have hnaming : fleet.naming = fleetFromTheBack.naming := rfl
  have hentity : fleet.entityTypes.Perm fleetFromTheBack.entityTypes := (List.reverse_perm _).symm
  have hcomplex : fleet.complexTypes.Perm fleetFromTheBack.complexTypes :=
    (List.reverse_perm _).symm
  have hentityNames : (fleet.entityTypes.map (·.name)).Nodup := by decide
  have hcomplexNames : (fleet.complexTypes.map (·.name)).Nodup := by decide
  have hresources : (fleet.entityTypes.filterMap (·.resource)).Nodup := by decide
  have hcompile : besideTheAda.compile (.schema fleet) {} = .ok besideTheAdaUri := by rfl
  have hsame := compile_eq_of_perm hnaming hentity hcomplex hentityNames hcomplexNames hresources
    besideTheAda {}
  exact ⟨hnaming, hentity, hcomplex, hentityNames, hcomplexNames, hresources, hcompile,
    hsame.symm.trans hcompile⟩

end ODataQuery.Schema
