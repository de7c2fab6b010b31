import ODataQuery.Proofs.Filter.Congruence
import ODataQuery.Proofs.Filter.Leaves
import ODataQuery.Proofs.Query.Congruence
import ODataQuery.Proofs.Schema.Validity

/-!
# Schemas that only name by convention

A schema that gives no server name of its own writes each segment of a path as its
convention does, so a path that it accepts has the text that the convention alone gives.
The two part below a lambda: without a schema no type is known there and a path is written
as it stands, dots and all. With no renaming and one segment that is the same text again.
-/

namespace ODataQuery

namespace Schema

/-- No property has a server's name of its own. -/
def NamesByConvention (s : Schema) : Prop :=
  ∀ d ∈ s.types, (∀ p ∈ d.properties, p.serverName = none) ∧
    ∀ n ∈ d.navigations, n.serverName = none

variable {s : Schema}

theorem step?_serverName (hs : s.NamesByConvention) {d : TypeDefinition} (hd : d ∈ s.types)
    {segment : String} {info : PropertyInfo} {next : Option TypeDefinition}
    (h : s.step? d segment = some (info, next)) :
    info.serverName = s.naming.serverName segment := by
  obtain ⟨hproperties, hnavigations⟩ := hs d hd
  obtain ⟨p, hp, rfl, -⟩ | ⟨-, n, hn, rfl, -⟩ := step?_eq_some.mp h
  · have hname : p.name = segment := by simpa using List.find?_some hp
    rw [dataInfo, hproperties p (List.mem_of_find?_eq_some hp), hname]
    rfl
  · have hname : n.name = segment := by simpa using List.find?_some hn
    rw [navigationInfo, hnavigations n (List.mem_of_find?_eq_some hn), hname]
    rfl

theorem walkFrom_serverNames (hs : s.NamesByConvention) {root : TypeDefinition}
    {path : PropertyPath} {segments : List String} {current : Option TypeDefinition}
    {infos : List PropertyInfo} {last : Option TypeDefinition}
    (hcurrent : ∀ d ∈ current, d ∈ s.types)
    (h : s.walkFrom root path current segments = .ok (infos, last)) :
    infos.map (·.serverName) = segments.map s.naming.serverName := by
  induction segments generalizing current infos with
  | nil =>
    rw [walkFrom] at h
    obtain ⟨rfl, -⟩ := Prod.mk.inj (Except.ok.inj h)
    rfl
  | cons segment rest ih =>
    cases current with
    | none => cases h
    | some d =>
      have hd : d ∈ s.types := hcurrent d rfl
      obtain ⟨info, next, infos', hstep, hrest, rfl⟩ := walkFrom_cons.mp h
      have hnext : ∀ e ∈ next, e ∈ s.types := by
        rintro e rfl
        exact step?_mem hstep
      rw [List.map_cons, List.map_cons, step?_serverName hs hd hstep, ih hnext hrest]

end Schema

namespace EntityType

variable {s : Schema} {d : TypeDefinition}

/-- A path that a type accepts is written segment by segment. -/
theorem serverPath_passesTo (hs : s.NamesByConvention) (hd : d ∈ s.types) (path : PropertyPath)
    (delimiter : String) :
    PassesTo ((declared s d).serverPath path delimiter)
      ((anonymous s.naming).serverPath path delimiter) := by
  intro text h
  simp only [serverPath, properties, map_bind, bind_eq_ok, pure_eq_ok, Except.ok.injEq] at h
  obtain ⟨⟨infos, last⟩, hwalk, rfl⟩ := h
  have hcurrent : ∀ e ∈ some d, e ∈ s.types := by
    rintro e ⟨⟩
    exact hd
  rw [serverPath, Schema.walkFrom_serverNames hs hcurrent hwalk]

theorem validatePaths_passesTo (paths : List PropertyPath) (naming : NamingConvention) :
    PassesTo ((declared s d).validatePaths paths) ((anonymous naming).validatePaths paths) :=
  fun _ _ => rfl

/-- Navigation stays among the declared types. -/
theorem element?_declared (hd : d ∈ s.types) {path : PropertyPath} {t : EntityType}
    (h : (declared s d).element? path = some t) : ∃ e ∈ s.types, t = declared s e := by
  rw [element?] at h
  split at h
  · rename_i infos last hwalk
    split at h
    · refine ⟨last, ?_, (Option.some.inj h).symm⟩
      refine Schema.walkFrom_mem ?_ hwalk
      rintro e ⟨⟩
      exact hd
    · cases h
  · cases h

end EntityType

namespace Context

variable {s : Schema} (C : Context)

theorem elementType_of_no_lambda (hC : C.lambdas = 0) (t : Option EntityType) :
    C.elementType t = t := by
  induction C generalizing t with
  | nil => rfl
  | cons f C ih =>
    rw [lambdas_cons] at hC
    cases f with
    | lambda op source => simp [Frame.isLambda] at hC
    | not => exact ih hC t
    | junction op before after => exact ih hC t

theorem elementType_none : C.elementType none = none := by
  induction C with
  | nil => rfl
  | cons f C ih =>
    have hf : f.elementType none = none := by
      cases f with
      | lambda op source => cases source <;> rfl
      | not => rfl
      | junction op before after => rfl
    change elementType C (f.elementType none) = none
    rw [hf, ih]

/-- Without a schema no type is known below a lambda. -/
theorem elementType_anonymous (hC : 0 < C.lambdas) (naming : NamingConvention) :
    C.elementType (some (.anonymous naming)) = none := by
  induction C with
  | nil => exact absurd hC (Nat.lt_irrefl 0)
  | cons f C ih =>
    rw [lambdas_cons] at hC
    cases f with
    | lambda op source =>
      have hf : (Frame.lambda op source).elementType (some (.anonymous naming)) = none := by
        cases source <;> rfl
      change elementType C ((Frame.lambda op source).elementType (some (.anonymous naming))) = none
      rw [hf, elementType_none]
    | not => exact ih hC
    | junction op before after => exact ih hC

/-- With a schema the type at a place is a declared one, or none is known. -/
theorem elementType_declared {t u : EntityType} (ht : ∃ d ∈ s.types, t = .declared s d)
    (h : C.elementType (some t) = some u) : ∃ d ∈ s.types, u = .declared s d := by
  induction C generalizing t with
  | nil =>
    obtain rfl := Option.some.inj h
    exact ht
  | cons f C ih =>
    change elementType C (f.elementType (some t)) = some u at h
    cases hf : f.elementType (some t) with
    | none =>
      rw [hf, elementType_none] at h
      cases h
    | some v =>
      rw [hf] at h
      refine ih ?_ h
      obtain ⟨d, hd, rfl⟩ := ht
      cases f with
      | not =>
        obtain rfl := Option.some.inj hf
        exact ⟨d, hd, rfl⟩
      | junction op before after =>
        obtain rfl := Option.some.inj hf
        exact ⟨d, hd, rfl⟩
      | lambda op source =>
        cases source with
        | property path => exact EntityType.element?_declared hd hf
        | literal type v => cases hf
        | function name args => cases hf

end Context

/-- A single segment that is not renamed is written as it stands. -/
theorem PropertyPath.textIn_passesTo_dotted {s : Schema} (hs : s.NamesByConvention)
    (hnaming : s.naming = .none) {path : PropertyPath} (hpath : path.segments.length = 1)
    {t : Option EntityType} (ht : ∀ u ∈ t, ∃ d ∈ s.types, u = .declared s d) :
    PassesTo (path.textIn t) (path.textIn none) := by
  cases t with
  | none => exact congruent_passesTo.refl _
  | some u =>
    obtain ⟨d, hd, rfl⟩ := ht u rfl
    intro text h
    have hanonymous := EntityType.serverPath_passesTo hs hd path "/" text h
    obtain ⟨segment, hsegment⟩ := List.length_eq_one_iff.mp hpath
    rw [EntityType.serverPath, hnaming, hsegment] at hanonymous
    rw [textIn, dotted, hsegment]
    exact hanonymous

/-- A filter has no lambda, or nothing is renamed and below a lambda every path is a single
segment: then a schema and its convention do not part. -/
def Predicate.NeedsNoSchema (p : Predicate) (naming : NamingConvention) : Prop :=
  p.hasLambda = false ∨
    naming = .none ∧ ∀ path, .property path ∈ p.bodyLeaves → path.segments.length = 1

theorem Predicate.render_passesTo_anonymous {s : Schema} (hs : s.NamesByConvention)
    {d : TypeDefinition} (hd : d ∈ s.types) {p : Predicate} (hp : p.NeedsNoSchema s.naming)
    (σ : Scope) :
    PassesTo (p.render (σ.over (some (.declared s d))))
      (p.render (σ.over (some (.anonymous s.naming)))) := by
  apply render_congr congruent_passesTo
  rintro X path rfl
  by_cases hX : X.context.lambdas = 0
  · rw [X.context.elementType_of_no_lambda hX, X.context.elementType_of_no_lambda hX]
    exact EntityType.serverPath_passesTo hs hd path "/"
  · have hbody : 0 < X.context.lambdas := Nat.pos_of_ne_zero hX
    rw [X.context.elementType_anonymous hbody]
    obtain hlambda | ⟨hnaming, hsegments⟩ := hp
    · have hhas : (X.fill (.property path)).hasLambda := X.context.hasLambda_fill hbody
      rw [hlambda] at hhas
      cases hhas
    · have hpath := hsegments path (X.mem_bodyLeaves_fill rfl hbody)
      apply PropertyPath.textIn_passesTo_dotted hs hnaming hpath
      intro u hu
      exact X.context.elementType_declared ⟨d, hd, rfl⟩ hu

namespace EntityQuery

theorem options_passesTo_anonymous {s : Schema} (hs : s.NamesByConvention) {d : TypeDefinition}
    (hd : d ∈ s.types) {q : EntityQuery} (hexpand : ∀ paths ∈ q.expand, paths = [])
    (hfilter : ∀ p ∈ q.filter, p.NeedsNoSchema s.naming) (o : CompileOptions) :
    PassesTo (q.options (.declared s d) o) (q.options (.anonymous s.naming) o) := by
  apply options_congr congruent_passesTo q.filter
  · apply clauseText_congr congruent_passesTo
    intro p hp
    exact Predicate.render_passesTo_anonymous hs hd (hfilter p hp) (.root none o.dialect o.maxDepth)
  · intro items _
    apply Clause.orderBy_congr congruent_passesTo
    · exact EntityType.validatePaths_passesTo _ _
    · exact fun item _ => EntityType.serverPath_passesTo hs hd item.path "/"
  · intro paths hpaths
    apply Clause.expand_congr congruent_passesTo
    rw [hexpand paths hpaths]
    exact fun path hpath => absurd hpath List.not_mem_nil
  · intro paths _
    apply Clause.select_congr congruent_passesTo
    · exact EntityType.validatePaths_passesTo _ _
    · exact fun path _ => EntityType.serverPath_passesTo hs hd path "/"

/-- **A schema without names of its own only checks.** What compiles against it compiles
to the same text with the naming convention alone. -/
theorem compile_of_convention {s : Schema} (hs : s.NamesByConvention) {q : EntityQuery}
    (hexpand : ∀ paths ∈ q.expand, paths = [])
    (hfilter : ∀ p ∈ q.filter, p.NeedsNoSchema s.naming) {o : CompileOptions} {uri : String}
    (h : q.compile (.schema s) o = .ok uri) : q.compile (.absent s.naming) o = .ok uri := by
  refine compile_congr congruent_passesTo q.filter ?_ uri h
  cases hresource : s.resource? q.resourcePath with
  | none =>
    rw [Resolver.entityType_of_none hresource]
    exact congruent_passesTo.refl _
  | some d =>
    rw [Resolver.entityType_of_some hresource]
    exact options_passesTo_anonymous hs (Schema.resource?_mem hresource) hexpand hfilter o

def library : Schema where
  entityTypes := [
    { name := "Author", resource := some "Authors",
      properties := [{ name := "home", complexType := some "Place" }],
      navigations := [{ name := "books", target := "Book", isCollection := true }] },
    { name := "Book", properties := [{ name := "title" }] }]
  complexTypes := [{ name := "Place", properties := [{ name := "city" }] }]

def authorsOfEmma : EntityQuery where
  resource := "Authors"
  filter := some (.lambda .any (.property ⟨["books"]⟩)
    (.binary .eq (.property ⟨["title"]⟩) (.literal .string (.string "Emma"))))
  orderBy := some [⟨⟨["home", "city"]⟩, true⟩]
  expand := some []

def authorsOfEmmaUri : String :=
  "Authors?$filter=books%2Fany(x1%3A%20x1%2Ftitle%20eq%20'Emma')&$orderby=home%2Fcity%20desc&$expand="

theorem compile_authorsOfEmma : library.NamesByConvention ∧
    (∀ paths ∈ authorsOfEmma.expand, paths = []) ∧
    (∀ p ∈ authorsOfEmma.filter, p.NeedsNoSchema library.naming) ∧
    authorsOfEmma.compile (.schema library) {} = .ok authorsOfEmmaUri ∧
    authorsOfEmma.compile (.absent library.naming) {} = .ok authorsOfEmmaUri := by
  have hnames : library.NamesByConvention := by
    unfold Schema.NamesByConvention
    decide
  have hexpand : ∀ paths ∈ authorsOfEmma.expand, paths = [] := by
    rintro paths ⟨⟩
    rfl
  have hfilter : ∀ p ∈ authorsOfEmma.filter, p.NeedsNoSchema library.naming := by
    rintro p ⟨⟩
    refine .inr ⟨rfl, fun path hpath => ?_⟩
    obtain rfl : path = ⟨["title"]⟩ := by
      simpa [Predicate.bodyLeaves, Predicate.leaves, Expr.leaves] using hpath
    rfl
  have hcompile : authorsOfEmma.compile (.schema library) {} = .ok authorsOfEmmaUri := by rfl
  exact ⟨hnames, hexpand, hfilter, hcompile,
    compile_of_convention hnames hexpand hfilter hcompile⟩

end EntityQuery

end ODataQuery
