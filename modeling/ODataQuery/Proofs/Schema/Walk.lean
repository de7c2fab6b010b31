import ODataQuery.Proofs.Outcome
import ODataQuery.Schema.EntityType

/-!
# Walks

A walk goes one step at a time, so along two paths, one behind the other, it goes as along
the first and then on along the second. What it meets and where it ends is a matter of its
steps alone; the whole path and the root only stand in its errors.
-/

namespace ODataQuery

namespace Schema

variable {s : Schema} {d : TypeDefinition}

/-- The two kinds of step: into a complex type, and to the target of a navigation. -/
theorem step?_eq_some {segment : String} {info : PropertyInfo} {next : Option TypeDefinition} :
    s.step? d segment = some (info, next) ↔
      (∃ p, d.properties.find? (·.name == segment) = some p ∧ info = s.dataInfo p ∧
        next = p.complexType.bind s.complexType?) ∨
      d.properties.find? (·.name == segment) = none ∧
        ∃ n, d.navigations.find? (·.name == segment) = some n ∧ info = s.navigationInfo n ∧
          next = s.entityType? n.target := by
  unfold step?
  cases d.properties.find? (·.name == segment) with
  | some p => simp [eq_comm]
  | none =>
    cases d.navigations.find? (·.name == segment) with
    | some n => simp [eq_comm]
    | none => simp

theorem walkFrom_cons {root : TypeDefinition} {path : PropertyPath} {segment : String}
    {rest : List String} {infos : List PropertyInfo} {last : Option TypeDefinition} :
    s.walkFrom root path (some d) (segment :: rest) = .ok (infos, last) ↔
      ∃ info next infos', s.step? d segment = some (info, next) ∧
        s.walkFrom root path next rest = .ok (infos', last) ∧ infos = info :: infos' := by
  rw [walkFrom]
  cases hstep : s.step? d segment with
  | none => simp
  | some step =>
    obtain ⟨info, next⟩ := step
    simp only [bind_eq_ok, pure_eq_ok, Except.ok.injEq, Prod.mk.injEq, Option.some.injEq]
    constructor
    · rintro ⟨⟨infos', last'⟩, hrest, rfl, rfl⟩
      exact ⟨info, next, infos', ⟨rfl, rfl⟩, hrest, rfl⟩
    · rintro ⟨_, _, infos', ⟨rfl, rfl⟩, hrest, rfl⟩
      exact ⟨(infos', last), hrest, rfl, rfl⟩

theorem walkFrom_nil {root : TypeDefinition} {path : PropertyPath}
    {current : Option TypeDefinition} {infos : List PropertyInfo} {last : Option TypeDefinition} :
    s.walkFrom root path current [] = .ok (infos, last) ↔ infos = [] ∧ last = current := by
  rw [walkFrom, Except.ok.injEq, Prod.mk.injEq, eq_comm, eq_comm (a := current)]

theorem length_of_walkFrom {root : TypeDefinition} {path : PropertyPath} {segments : List String}
    {current : Option TypeDefinition} {infos : List PropertyInfo} {last : Option TypeDefinition}
    (h : s.walkFrom root path current segments = .ok (infos, last)) :
    infos.length = segments.length := by
  induction segments generalizing current infos with
  | nil =>
    obtain ⟨rfl, -⟩ := walkFrom_nil.mp h
    rfl
  | cons segment rest ih =>
    cases current with
    | none => cases h
    | some d =>
      obtain ⟨info, next, infos', -, hrest, rfl⟩ := walkFrom_cons.mp h
      rw [List.length_cons, List.length_cons, ih hrest]

/-- Walking on from where a walk ended. -/
theorem walkFrom_append (root : TypeDefinition) (path : PropertyPath)
    (current : Option TypeDefinition) (xs ys : List String) :
    s.walkFrom root path current (xs ++ ys) = (do
      let (infos, mid) ← s.walkFrom root path current xs
      let (infos', last) ← s.walkFrom root path mid ys
      return (infos ++ infos', last)) := by
  induction xs generalizing current with
  | nil =>
    rw [List.nil_append, walkFrom]
    simp only [ok_bind, List.nil_append]
    cases s.walkFrom root path current ys <;> rfl
  | cons segment rest ih =>
    cases current with
    | none => rfl
    | some d =>
      rw [List.cons_append, walkFrom, walkFrom]
      cases s.step? d segment with
      | none => rfl
      | some step =>
        obtain ⟨info, next⟩ := step
        simp only [ih, bind_assoc, pure_eq_ok, ok_bind, List.cons_append]

/-- A walk that succeeds does so whatever its errors would have named. -/
theorem walkFrom_passesTo (root root' : TypeDefinition) (path path' : PropertyPath)
    (current : Option TypeDefinition) (segments : List String) :
    PassesTo (s.walkFrom root path current segments) (s.walkFrom root' path' current segments) := by
  induction segments generalizing current with
  | nil => exact congruent_passesTo.refl _
  | cons segment rest ih =>
    rintro ⟨infos, last⟩ h
    cases current with
    | none => cases h
    | some d =>
      obtain ⟨info, next, infos', hstep, hrest, rfl⟩ := walkFrom_cons.mp h
      exact walkFrom_cons.mpr ⟨info, next, infos', hstep, ih next _ hrest, rfl⟩

/-- A walk stays in a class of types that no step leaves. -/
theorem walkFrom_invariant {P : TypeDefinition → Prop}
    (hnext : ∀ d segment info next, P d → s.step? d segment = some (info, some next) → P next)
    {root : TypeDefinition} {path : PropertyPath} {segments : List String}
    {current : Option TypeDefinition} (hcurrent : ∀ d ∈ current, P d) {infos : List PropertyInfo}
    {last : TypeDefinition}
    (h : s.walkFrom root path current segments = .ok (infos, some last)) : P last := by
  induction segments generalizing current infos with
  | nil =>
    obtain ⟨-, hlast⟩ := walkFrom_nil.mp h
    exact hcurrent last hlast.symm
  | cons segment rest ih =>
    cases current with
    | none => cases h
    | some d =>
      obtain ⟨info, next, infos', hstep, hrest, -⟩ := walkFrom_cons.mp h
      apply ih _ hrest
      rintro e rfl
      exact hnext d segment info e (hcurrent d rfl) hstep

/-- Two schemas whose steps agree on a class of types that no step leaves walk alike from
the types of that class. -/
theorem walkFrom_eq_of_steps {s' : Schema} {P : TypeDefinition → Prop}
    (hstep : ∀ d, P d → ∀ segment, s'.step? d segment = s.step? d segment)
    (hnext : ∀ d segment info next, P d → s.step? d segment = some (info, some next) → P next)
    (root : TypeDefinition) (path : PropertyPath) (segments : List String)
    {current : Option TypeDefinition} (hcurrent : ∀ d ∈ current, P d) :
    s'.walkFrom root path current segments = s.walkFrom root path current segments := by
  induction segments generalizing current with
  | nil => rfl
  | cons segment rest ih =>
    cases current with
    | none => rfl
    | some d =>
      have hd : P d := hcurrent d rfl
      rw [walkFrom, walkFrom, hstep d hd segment]
      cases hfound : s.step? d segment with
      | none => rfl
      | some step =>
        obtain ⟨info, next⟩ := step
        have hon : ∀ e ∈ next, P e := by
          rintro e rfl
          exact hnext d segment info e hd hfound
        simp only [ih hon]

end Schema

namespace EntityType

theorem properties_eq_ok {s : Schema} {d : TypeDefinition} {path : PropertyPath}
    {infos : List PropertyInfo} :
    (declared s d).properties path = .ok infos ↔ ∃ last, s.walk d path = .ok (infos, last) := by
  rw [properties]
  cases s.walk d path with
  | error e => simp
  | ok walked =>
    obtain ⟨infos', last⟩ := walked
    simp

/-- The type is seen through a schema. -/
def isDeclared : EntityType → Bool
  | .declared _ _ => true
  | _ => false

/-- A path that resolves has one property for each segment. -/
theorem length_of_properties {t : EntityType} (ht : t.isDeclared) {path : PropertyPath}
    {infos : List PropertyInfo} (h : t.properties path = .ok infos) :
    infos.length = path.segments.length := by
  cases t with
  | declared s d =>
    obtain ⟨last, hwalk⟩ := properties_eq_ok.mp h
    exact Schema.length_of_walkFrom hwalk
  | anonymous | other => cases ht

theorem element?_eq_some {s : Schema} {d : TypeDefinition} {path : PropertyPath} {t : EntityType} :
    (declared s d).element? path = some t ↔
      ∃ infos last, s.walk d path = .ok (infos, some last) ∧
        infos.getLast?.any (·.isNavigation) ∧ t = declared s last := by
  rw [element?]
  cases s.walk d path with
  | error e => simp
  | ok walked =>
    obtain ⟨infos, last⟩ := walked
    cases last with
    | none => simp
    | some last =>
      simp only [Option.ite_none_right_eq_some, Except.ok.injEq, Prod.mk.injEq, Option.some.injEq]
      constructor
      · rintro ⟨hnavigation, rfl⟩
        exact ⟨infos, last, ⟨rfl, rfl⟩, hnavigation, rfl⟩
      · rintro ⟨_, _, ⟨rfl, rfl⟩, hnavigation, rfl⟩
        exact ⟨hnavigation, rfl⟩

theorem serverPath_declared {t : EntityType} (ht : t.isDeclared) (path : PropertyPath)
    (delimiter : String) : t.serverPath path delimiter =
      (t.properties path).map fun infos => delimiter.intercalate (infos.map (·.serverName)) := by
  cases t with
  | declared s d =>
    change ((declared s d).properties path >>= _) = _
    cases (declared s d).properties path <;> rfl
  | anonymous | other => cases ht

theorem serverPath_of_properties {t : EntityType} (ht : t.isDeclared) {path : PropertyPath}
    {infos : List PropertyInfo} (h : t.properties path = .ok infos) (delimiter : String) :
    t.serverPath path delimiter = .ok (delimiter.intercalate (infos.map (·.serverName))) := by
  rw [serverPath_declared ht, h, map_ok]

theorem validatePaths_declared {t : EntityType} (ht : t.isDeclared) (paths : List PropertyPath) :
    t.validatePaths paths = paths.forM (fun path => do let _ ← t.properties path) := by
  cases t with
  | declared s d => rfl
  | anonymous | other => cases ht

end EntityType

end ODataQuery
