import ODataQuery.Clause
import ODataQuery.Proofs.Filter.Rendering
import ODataQuery.Proofs.Schema.Walk

/-!
# One list of paths in every clause

Ordering and selection check all paths before they write any, expansion resolves each path
as it writes it, and a filter translates a path by itself. Each of them asks the type for the
properties along a path and takes the server's names from these. So over one list of paths
they fail together, with the error of its first path that does not resolve, or write the same
names.
-/

namespace ODataQuery

variable {t : EntityType}

/-- The server's names along a path that resolves. -/
def EntityType.serverNames (t : EntityType) (path : PropertyPath) : List String :=
  match t.properties path with
  | .ok infos => infos.map (·.serverName)
  | .error _ => []

namespace EntityType

variable {path : PropertyPath} {infos : List PropertyInfo}

theorem serverNames_of_properties (h : t.properties path = .ok infos) :
    t.serverNames path = infos.map (·.serverName) := by
  rw [serverNames, h]

theorem serverPath_of_resolves (ht : t.isDeclared) (h : ∃ infos, t.properties path = .ok infos)
    (delimiter : String) :
    t.serverPath path delimiter = .ok (delimiter.intercalate (t.serverNames path)) := by
  obtain ⟨infos, hinfos⟩ := h
  rw [serverPath_of_properties ht hinfos, serverNames_of_properties hinfos]

theorem validatePaths_eq (ht : t.isDeclared) (paths : List PropertyPath) :
    t.validatePaths paths = (paths.mapM t.properties).map fun _ => () := by
  rw [validatePaths_declared ht, forM_discard]

theorem validatePaths_of_resolves (ht : t.isDeclared) {paths : List PropertyPath}
    (h : ∀ path ∈ paths, ∃ infos, t.properties path = .ok infos) :
    t.validatePaths paths = .ok () := by
  obtain ⟨all, hall⟩ := exists_mapM_eq_ok.mpr h
  rw [validatePaths_eq ht, hall, map_ok]

end EntityType

theorem Expr.render_property_of_room {σ : Scope} (htype : σ.entityType = some t)
    (hroom : 0 < σ.room) (path : PropertyPath) :
    (property path).render σ = (t.serverPath path "/").map .text := by
  have htext : pathText σ.deeper path = t.serverPath path "/" := by
    rw [pathText, show σ.deeper.entityType = some t from htype]
  rw [render, Scope.enter_of_room hroom, ok_bind, htext]
  cases t.serverPath path "/" <;> rfl

namespace Clause

/-- An expansion opens a parenthesis behind each name but the last and closes them all at
the end. -/
theorem nest_eq (names : List String) :
    nest names = "($expand=".intercalate names ++
      String.ofList (List.replicate (names.length - 1) ')') := by
  induction names with
  | nil => rfl
  | cons name rest ih =>
    cases rest with
    | nil => simp [nest]
    | cons next rest =>
      have hnest : nest (name :: next :: rest) =
        name ++ "($expand=" ++ nest (next :: rest) ++ ")" := rfl
      rw [hnest, ih]
      simp [List.replicate_succ', String.append_assoc]

theorem expandItem_of_properties {path : PropertyPath} {infos : List PropertyInfo}
    (h : t.properties path = .ok infos) :
    expandItem t path = .ok (nest (infos.map (·.serverName))) := by
  rw [expandItem, h, ok_bind, pure_eq_ok]

/-- The three clauses over a list of paths fail with one error. It is that of the first path
that does not resolve, and a filter refuses this path with it as well. -/
structure Refused (t : EntityType) (paths : List PropertyPath) (e : QueryError) : Prop where
  first : ∃ before path behind, paths = before ++ path :: behind ∧
    (∀ p ∈ before, ∃ infos, t.properties p = .ok infos) ∧ t.properties path = .error e ∧
    ∀ σ : Scope, σ.entityType = some t → 0 < σ.room → (Expr.property path).render σ = .error e
  orderBy : ∀ items : List OrderItem, items.map (·.path) = paths → orderBy t items = .error e
  select : select t paths = .error e
  expand : expand t paths = .error e

/-- Each path of a list resolves, with one server's name for each segment, and the three
clauses and a filter write these names. -/
structure Written (t : EntityType) (paths : List PropertyPath) : Prop where
  resolves : ∀ path ∈ paths, ∃ infos, t.properties path = .ok infos ∧
    t.serverNames path = infos.map (·.serverName) ∧
    (t.serverNames path).length = path.segments.length
  orderBy : ∀ items : List OrderItem, items.map (·.path) = paths →
    orderBy t items = .ok (",".intercalate (items.map fun item =>
      "/".intercalate (t.serverNames item.path) ++ if item.descending then " desc" else ""))
  select : select t paths =
    .ok (",".intercalate (paths.map fun path => "/".intercalate (t.serverNames path)))
  expand : expand t paths = .ok (",".intercalate (paths.map fun path =>
    "($expand=".intercalate (t.serverNames path) ++
      String.ofList (List.replicate ((t.serverNames path).length - 1) ')')))
  property : ∀ path ∈ paths, ∀ σ : Scope, σ.entityType = some t → 0 < σ.room →
    (Expr.property path).render σ = .ok (.text ("/".intercalate (t.serverNames path)))

variable {paths : List PropertyPath}

theorem refused_of_mapM (ht : t.isDeclared) {e : QueryError}
    (h : paths.mapM t.properties = .error e) : Refused t paths e := by
  obtain ⟨before, path, behind, hpaths, hbefore, hpath⟩ := mapM_eq_error.mp h
  have hvalidate : t.validatePaths paths = .error e := by
    rw [EntityType.validatePaths_eq ht, h, map_error]
  have hserver : t.serverPath path "/" = .error e := by
    rw [EntityType.serverPath_declared ht, hpath, map_error]
  -- expansion checks nothing beforehand and stops at the same path
  have hitems : paths.mapM (expandItem t) = .error e := by
    refine mapM_eq_error.mpr ⟨before, path, behind, hpaths, ?_, ?_⟩
    · intro p hp
      obtain ⟨infos, hinfos⟩ := hbefore p hp
      exact ⟨_, expandItem_of_properties hinfos⟩
    · rw [expandItem, hpath, error_bind]
  have hproperty : ∀ σ : Scope, σ.entityType = some t → 0 < σ.room →
      (Expr.property path).render σ = .error e := by
    intro σ htype hroom
    rw [Expr.render_property_of_room htype hroom, hserver, map_error]
  exact {
    first := ⟨before, path, behind, hpaths, hbefore, hpath, hproperty⟩
    orderBy := by
      rintro items rfl
      rw [orderBy, hvalidate, error_bind]
    select := by rw [select, hvalidate, error_bind]
    expand := by rw [expand, hitems, error_bind] }

section

variable (h : ∀ path ∈ paths, ∃ infos, t.properties path = .ok infos)
include h

theorem orderBy_of_resolves (ht : t.isDeclared) {items : List OrderItem}
    (hitems : items.map (·.path) = paths) : orderBy t items =
      .ok (",".intercalate (items.map fun item =>
        "/".intercalate (t.serverNames item.path) ++ if item.descending then " desc" else "")) := by
  subst hitems
  have hitem : ∀ item ∈ items, orderItem t item = .ok
      ("/".intercalate (t.serverNames item.path) ++ if item.descending then " desc" else "") := by
    intro item hitem
    rw [orderItem, EntityType.serverPath_of_resolves ht (h _ (List.mem_map_of_mem hitem)), ok_bind]
    cases item.descending <;> simp
  rw [orderBy, EntityType.validatePaths_of_resolves ht h, ok_bind, mapM_eq_map hitem, ok_bind,
    pure_eq_ok]

theorem select_of_resolves (ht : t.isDeclared) : select t paths =
    .ok (",".intercalate (paths.map fun path => "/".intercalate (t.serverNames path))) := by
  have hpath : ∀ path ∈ paths,
      t.serverPath path "/" = .ok ("/".intercalate (t.serverNames path)) :=
    fun path hpath => EntityType.serverPath_of_resolves ht (h path hpath) "/"
  rw [select, EntityType.validatePaths_of_resolves ht h, ok_bind, mapM_eq_map hpath, ok_bind,
    pure_eq_ok]

theorem expand_of_resolves : expand t paths =
    .ok (",".intercalate (paths.map fun path => nest (t.serverNames path))) := by
  have hpath : ∀ path ∈ paths, expandItem t path = .ok (nest (t.serverNames path)) := by
    intro path hpath
    obtain ⟨infos, hinfos⟩ := h path hpath
    rw [expandItem_of_properties hinfos, EntityType.serverNames_of_properties hinfos]
  rw [expand, mapM_eq_map hpath, ok_bind, pure_eq_ok]

theorem written_of_resolves (ht : t.isDeclared) : Written t paths where
  resolves := by
    intro path hpath
    obtain ⟨infos, hinfos⟩ := h path hpath
    have hnames := EntityType.serverNames_of_properties hinfos
    refine ⟨infos, hinfos, hnames, ?_⟩
    rw [hnames, List.length_map, EntityType.length_of_properties ht hinfos]
  orderBy _ hitems := orderBy_of_resolves h ht hitems
  select := select_of_resolves h ht
  expand := by
    rw [expand_of_resolves h]
    simp only [nest_eq]
  property := by
    intro path hpath σ htype hroom
    have hserver := EntityType.serverPath_of_resolves ht (h path hpath) "/"
    rw [Expr.render_property_of_room htype hroom, hserver, map_ok]

end

/-- **All clauses resolve a path alike.** To order by the paths of a list, in any directions,
to select and to expand them fails with one error, that of the first path that does not
resolve and also what a filter over this path reports; or all of them write the same names
for every path. -/
theorem refused_or_written (s : Schema) (d : TypeDefinition) (paths : List PropertyPath) :
    (∃ e, Refused (.declared s d) paths e) ∨ Written (.declared s d) paths := by
  cases h : paths.mapM (EntityType.declared s d).properties with
  | error e => exact .inl ⟨e, refused_of_mapM rfl h⟩
  | ok all => exact .inr (written_of_resolves (exists_mapM_eq_ok.mp ⟨all, h⟩) rfl)

end Clause

end ODataQuery
