import Mathlib.Data.List.Induction
import ODataQuery.Proofs.Schema.Validity

namespace ODataQuery

/-- One path behind another. -/
instance : Append PropertyPath := ⟨fun p q => ⟨p.segments ++ q.segments⟩⟩

theorem PropertyPath.segments_append (p q : PropertyPath) :
    (p ++ q).segments = p.segments ++ q.segments := rfl

namespace Schema

variable {s : Schema} {d : TypeDefinition} {p : PropertyPath} {infos : List PropertyInfo}
  {last : Option TypeDefinition}

theorem walkFrom_eq_ok {root : TypeDefinition} {segments : List String} :
    s.walkFrom root p (some d) segments = .ok (infos, last) ↔
      s.walk d ⟨segments⟩ = .ok (infos, last) := by
  constructor
  · exact walkFrom_passesTo root d p ⟨segments⟩ (some d) segments _
  · exact walkFrom_passesTo d root ⟨segments⟩ p (some d) segments _

theorem walk_append {e : TypeDefinition} (hp : s.walk d p = .ok (infos, some e)) (q : PropertyPath)
    {all : List PropertyInfo} :
    s.walk d (p ++ q) = .ok (all, last) ↔
      ∃ infos', s.walk e q = .ok (infos', last) ∧ all = infos ++ infos' := by
  have hfront : s.walkFrom d (p ++ q) (some d) p.segments = .ok (infos, some e) :=
    walkFrom_eq_ok.mpr hp
  rw [walk, PropertyPath.segments_append, walkFrom_append, hfront, ok_bind]
  simp only [bind_eq_ok, Prod.exists, walkFrom_eq_ok, pure_eq_ok, Except.ok.injEq, Prod.mk.injEq]
  constructor
  · rintro ⟨infos', _, hq, rfl, rfl⟩
    exact ⟨infos', hq, rfl⟩
  · rintro ⟨infos', hq, rfl⟩
    exact ⟨infos', last, hq, rfl, rfl⟩

/-- The last step of a walk is made from the type to which the segments before lead. -/
theorem walk_concat {front : List String} {segment : String}
    (h : s.walk d ⟨front ++ [segment]⟩ = .ok (infos, last)) :
    ∃ before e info, s.walk d ⟨front⟩ = .ok (before, some e) ∧
      s.step? e segment = some (info, last) ∧ infos = before ++ [info] := by
  rw [walk, walkFrom_append] at h
  obtain ⟨⟨before, mid⟩, hfront, h⟩ := bind_eq_ok.mp h
  obtain ⟨⟨behind, last'⟩, hstep, h⟩ := bind_eq_ok.mp h
  obtain ⟨rfl, rfl⟩ := Prod.mk.inj (Except.ok.inj h)
  cases mid with
  | none => cases hstep
  | some e =>
    obtain ⟨info, next, infos', hnext, hnil, rfl⟩ := walkFrom_cons.mp hstep
    obtain ⟨rfl, rfl⟩ := walkFrom_nil.mp hnil
    exact ⟨before, e, info, walkFrom_eq_ok.mp hfront, hnext, rfl⟩

/-- A path ends on a navigation property that its last segment names, on the type to which the
segments before lead and where no data property hides it. -/
def EndsOn (s : Schema) (d : TypeDefinition) (path : PropertyPath) (n : NavigationProperty) : Prop :=
  ∃ front segment infos e, path = ⟨front ++ [segment]⟩ ∧ s.walk d ⟨front⟩ = .ok (infos, some e) ∧
    e.properties.find? (·.name == segment) = none ∧
    e.navigations.find? (·.name == segment) = some n

namespace EndsOn

variable {n : NavigationProperty}

/-- What a walk along such a path met last, and where it ended. -/
theorem of_walk (hn : s.EndsOn d p n) (h : s.walk d p = .ok (infos, last)) :
    infos.getLast? = some (s.navigationInfo n) ∧ last = s.entityType? n.target := by
  obtain ⟨front, segment, before, e, rfl, hfront, hnone, hsome⟩ := hn
  obtain ⟨before', e', info, hfront', hstep, rfl⟩ := walk_concat h
  obtain ⟨-, heq⟩ := Prod.mk.inj (Except.ok.inj (hfront.symm.trans hfront'))
  obtain rfl := Option.some.inj heq
  obtain ⟨property, hproperty, -⟩ | ⟨-, n', hn', rfl, rfl⟩ := step?_eq_some.mp hstep
  · rw [hnone] at hproperty
    cases hproperty
  · obtain rfl := Option.some.inj (hsome.symm.trans hn')
    exact ⟨List.getLast?_concat, rfl⟩

/-- A valid schema declares the type that the navigation targets. -/
theorem exists_target (hn : s.EndsOn d p n) (hsettled : ∀ e ∈ s.types, s.Settles e)
    (hd : d ∈ s.types) : ∃ e, s.entityType? n.target = some e := by
  obtain ⟨front, segment, before, e, rfl, hfront, -, hsome⟩ := hn
  have he : e ∈ s.types := by
    refine walkFrom_mem ?_ hfront
    rintro _ ⟨⟩
    exact hd
  exact (hsettled e he).target n (List.mem_of_find?_eq_some hsome)

end EndsOn

theorem exists_endsOn (h : s.walk d p = .ok (infos, last))
    (hlast : infos.getLast?.any (·.isNavigation)) : ∃ n, s.EndsOn d p n := by
  obtain ⟨segments⟩ := p
  cases segments using List.reverseRecOn with
  | nil =>
    obtain ⟨rfl, -⟩ := walkFrom_nil.mp h
    cases hlast
  | append_singleton front segment =>
    obtain ⟨before, e, info, hfront, hstep, rfl⟩ := walk_concat h
    rw [List.getLast?_concat, Option.any_some] at hlast
    obtain ⟨property, -, rfl, -⟩ | ⟨hnone, n, hn, -, -⟩ := step?_eq_some.mp hstep
    · cases hlast
    · exact ⟨n, front, segment, before, e, rfl, hfront, hnone, hn⟩

end Schema

namespace EntityType

variable {s : Schema} {d : TypeDefinition} {p : PropertyPath} {infos : List PropertyInfo}

theorem element?_of_endsOn {n : NavigationProperty} (hn : s.EndsOn d p n) {e : TypeDefinition}
    (he : s.entityType? n.target = some e) (hp : (declared s d).properties p = .ok infos) :
    (declared s d).element? p = some (declared s e) := by
  obtain ⟨last, hwalk⟩ := properties_eq_ok.mp hp
  obtain ⟨hinfo, hlast⟩ := hn.of_walk hwalk
  rw [he] at hlast
  subst hlast
  refine element?_eq_some.mpr ⟨infos, e, hwalk, ?_, rfl⟩
  rw [hinfo]
  rfl

/-- Behind a navigation a path goes on as a path of the type it leads to. -/
theorem properties_append {e : TypeDefinition}
    (he : (declared s d).element? p = some (declared s e))
    (hp : (declared s d).properties p = .ok infos) (q : PropertyPath) {all : List PropertyInfo} :
    (declared s d).properties (p ++ q) = .ok all ↔
      ∃ infos', (declared s e).properties q = .ok infos' ∧ all = infos ++ infos' := by
  obtain ⟨last, hp⟩ := properties_eq_ok.mp hp
  obtain ⟨infos₀, last₀, hwalk, -, heq⟩ := element?_eq_some.mp he
  obtain ⟨-, rfl⟩ := declared.inj heq
  obtain ⟨rfl, -⟩ := Prod.mk.inj (Except.ok.inj (hwalk.symm.trans hp))
  simp only [properties_eq_ok, Schema.walk_append hwalk q]
  constructor
  · rintro ⟨last, infos', hq, rfl⟩
    exact ⟨infos', ⟨last, hq⟩, rfl⟩
  · rintro ⟨infos', ⟨last, hq⟩, rfl⟩
    exact ⟨last, infos', hq, rfl⟩

theorem serverPath_append {e : TypeDefinition}
    (he : (declared s d).element? p = some (declared s e))
    (hp : (declared s d).properties p = .ok infos) {q : PropertyPath} (hq : q.segments ≠ [])
    {infos' : List PropertyInfo} (hproperties : (declared s e).properties q = .ok infos')
    (delimiter : String) :
    ∃ front back, (declared s d).serverPath p delimiter = .ok front ∧
      (declared s e).serverPath q delimiter = .ok back ∧
      (declared s d).serverPath (p ++ q) delimiter = .ok (front ++ delimiter ++ back) := by
  have hall := (properties_append he hp q).mpr ⟨infos', hproperties, rfl⟩
  have hfront : infos.map (·.serverName) ≠ [] := by
    obtain ⟨infos₀, _, hwalk, hlast, -⟩ := element?_eq_some.mp he
    obtain rfl := Except.ok.inj (hp.symm.trans (properties_eq_ok.mpr ⟨_, hwalk⟩))
    rw [Ne, List.map_eq_nil_iff]
    rintro rfl
    cases hlast
  have hback : infos'.map (·.serverName) ≠ [] := by
    rw [Ne, List.map_eq_nil_iff]
    rintro rfl
    exact hq (List.length_eq_zero_iff.mp (length_of_properties rfl hproperties).symm)
  refine ⟨_, _, serverPath_of_properties rfl hp delimiter,
    serverPath_of_properties rfl hproperties delimiter, ?_⟩
  rw [serverPath_of_properties rfl hall, List.map_append,
    String.intercalate_append_of_ne_nil hfront hback]

/-- **Paths compose through navigations.** In a valid schema a path has an element type
exactly when it ends on a navigation property, and that is the type that the navigation
targets. A longer path exists exactly when the rest is a path of that type; it meets the
properties of both parts, and its server's form is theirs with the delimiter between. -/
theorem properties_through_navigation {s : Schema} (hvalid : s.validate = .ok ())
    {d : TypeDefinition} (hd : d ∈ s.entityTypes) {p : PropertyPath} {infos : List PropertyInfo}
    (hp : (declared s d).properties p = .ok infos) :
    ((∃ t, (declared s d).element? p = some t) ↔ ∃ n, s.EndsOn d p n) ∧
    (∀ n, s.EndsOn d p n →
      ∃ e, s.entityType? n.target = some e ∧ (declared s d).element? p = some (declared s e)) ∧
    ∀ t, (declared s d).element? p = some t → ∀ q : PropertyPath, q.segments ≠ [] →
      ((∃ all, (declared s d).properties (p ++ q) = .ok all) ↔
        ∃ infos', t.properties q = .ok infos') ∧
      ∀ infos', t.properties q = .ok infos' →
        (declared s d).properties (p ++ q) = .ok (infos ++ infos') ∧
        ∀ delimiter, ∃ front back, (declared s d).serverPath p delimiter = .ok front ∧
          t.serverPath q delimiter = .ok back ∧
          (declared s d).serverPath (p ++ q) delimiter = .ok (front ++ delimiter ++ back) := by
  have hdeclared : d ∈ s.types := List.mem_append_left _ hd
  have htarget : ∀ n, s.EndsOn d p n →
      ∃ e, s.entityType? n.target = some e ∧ (declared s d).element? p = some (declared s e) := by
    intro n hn
    obtain ⟨e, he⟩ := hn.exists_target (Schema.validate_eq_ok.mp hvalid) hdeclared
    exact ⟨e, he, element?_of_endsOn hn he hp⟩
  have hends : ∀ t, (declared s d).element? p = some t → ∃ n, s.EndsOn d p n := by
    intro t ht
    obtain ⟨_, _, hwalk, hlast, -⟩ := element?_eq_some.mp ht
    exact Schema.exists_endsOn hwalk hlast
  refine ⟨⟨fun ⟨t, ht⟩ => hends t ht, fun ⟨n, hn⟩ => ?_⟩, htarget, ?_⟩
  · obtain ⟨e, -, he⟩ := htarget n hn
    exact ⟨_, he⟩
  · intro t ht q hq
    obtain ⟨_, e, -, -, rfl⟩ := element?_eq_some.mp ht
    refine ⟨⟨?_, ?_⟩, ?_⟩
    · rintro ⟨all, hall⟩
      obtain ⟨infos', hproperties, -⟩ := (properties_append ht hp q).mp hall
      exact ⟨infos', hproperties⟩
    · rintro ⟨infos', hproperties⟩
      exact ⟨_, (properties_append ht hp q).mpr ⟨infos', hproperties, rfl⟩⟩
    · intro infos' hproperties
      have hall := (properties_append ht hp q).mpr ⟨infos', hproperties, rfl⟩
      exact ⟨hall, serverPath_append ht hp hq hproperties⟩

def train : TypeDefinition where
  name := "Train"
  properties := [{ name := "number" }, { name := "stop", complexType := some "Stop" }]

def station : TypeDefinition where
  name := "Station"
  navigations := [{ name := "trains", target := "Train", isCollection := true }]

/-- Trains and stations lead to each other, the way out through a complex type. -/
def railway : Schema where
  naming := .camelCase
  entityTypes := [train, station]
  complexTypes := [{ name := "Stop", navigations := [{ name := "station", target := "Station" }] }]

def toStation : PropertyPath := ⟨["stop", "station"]⟩

def aroundAgain : PropertyPath := ⟨["trains", "stop", "station", "trains", "number"]⟩

theorem properties_around_again : railway.validate = .ok () ∧ train ∈ railway.entityTypes ∧
    (∃ infos, (declared railway train).properties toStation = .ok infos) ∧
    (declared railway train).element? toStation = some (declared railway station) ∧
    (declared railway train).serverPath (toStation ++ aroundAgain) "/" =
      .ok "Stop/Station/Trains/Stop/Station/Trains/Number" := by
  have hvalid : railway.validate = .ok () := rfl
  have htrain : train ∈ railway.entityTypes := List.mem_cons_self
  obtain ⟨infos, hinfos⟩ : ∃ infos, (declared railway train).properties toStation = .ok infos :=
    ⟨_, rfl⟩
  obtain ⟨-, -, hthrough⟩ := properties_through_navigation hvalid htrain hinfos
  have hstation : (declared railway train).element? toStation = some (declared railway station) :=
    rfl
  obtain ⟨-, hbehind⟩ := hthrough _ hstation aroundAgain (List.cons_ne_nil _ _)
  obtain ⟨front, back, hfront, hback, hwhole⟩ := (hbehind _ rfl).2 "/"
  obtain rfl : "Stop/Station" = front := Except.ok.inj hfront
  obtain rfl : "Trains/Stop/Station/Trains/Number" = back := Except.ok.inj hback
  exact ⟨hvalid, htrain, ⟨infos, hinfos⟩, hstation, hwhole⟩

end EntityType

end ODataQuery
