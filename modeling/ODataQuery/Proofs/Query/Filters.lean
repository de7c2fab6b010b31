import ODataQuery.Proofs.Filter.Connective
import ODataQuery.Proofs.Filter.Refusal

namespace ODataQuery

namespace Predicate

variable {v : Predicate → Bool}

theorem holdsAll_and (ps : List Predicate) : holdsAll v .and ps = ps.all (·.holds v) := by
  induction ps with
  | nil => rfl
  | cons p ps ih =>
    rw [holdsAll, ih, List.all_cons]
    rfl

theorem atomsAll_eq_flatMap (ps : List Predicate) : atomsAll ps = ps.flatMap atoms := by
  induction ps with
  | nil => rfl
  | cons p ps ih => rw [atomsAll, ih, List.flatMap_cons]

theorem depthOperands_lt {ps : List Predicate} {limit : Nat} (hne : ps ≠ [])
    (h : ∀ p ∈ ps, p.depth < limit) : depthOperands ps < limit := by
  induction ps with
  | nil => exact absurd rfl hne
  | cons p ps ih =>
    obtain ⟨hp, hps⟩ := List.forall_mem_cons.mp h
    cases ps with
    | nil => rwa [depthOperands_singleton]
    | cons p' ps =>
      rw [depthOperands, Nat.max_lt]
      exact ⟨hp, ih (List.cons_ne_nil _ _) hps⟩

/-- The conjunction of a first predicate and others that are added one by one. -/
def conjoin (p : Predicate) (ps : List Predicate) : Predicate := ps.foldl Predicate.and p

theorem operands_conjoin (p : Predicate) (ps : List Predicate) :
    (p.conjoin ps).operands .and = p.operands .and ++ ps :=
  operands_foldl_join p ps

theorem holds_conjoin (p : Predicate) (ps : List Predicate) :
    (p.conjoin ps).holds v = (p :: ps).all (·.holds v) :=
  calc (p.conjoin ps).holds v
      = holdsAll v .and (p.operands .and ++ ps) := by rw [← operands_conjoin, holdsAll_operands]
    _ = (p.holds v && ps.all (·.holds v)) := by
      rw [holdsAll_append, holdsAll_operands, holdsAll_and]
      rfl
    _ = (p :: ps).all (·.holds v) := List.all_cons.symm

theorem atoms_conjoin (p : Predicate) (ps : List Predicate) :
    (p.conjoin ps).atoms = (p :: ps).flatMap atoms :=
  calc (p.conjoin ps).atoms
      = atomsAll (p.operands .and ++ ps) := by rw [← operands_conjoin, atomsAll_operands]
    _ = p.atoms ++ ps.flatMap atoms := by
      rw [atomsAll_append, atomsAll_operands, atomsAll_eq_flatMap]
    _ = (p :: ps).flatMap atoms := List.flatMap_cons.symm

theorem depth_conjoin_le (p : Predicate) (ps : List Predicate) :
    (p.conjoin ps).depth ≤ 1 + depthOperands (p :: ps) := by
  have hoperands : depthOperands ((p.conjoin ps).operands .and) ≤ depthOperands (p :: ps) := by
    have hfirst : depthOperands (p.operands .and) ≤ p.depth := depthOperands_operands_le p
    rw [operands_conjoin, depthOperands_append, depthOperands]
    omega
  rw [Nat.add_comm]
  exact Nat.le_trans (depth_le_depthOperands_operands _) (Nat.succ_le_succ hoperands)

end Predicate

namespace EntityQuery

/-- Add filters from left to right. -/
def addFilters (q : EntityQuery) (ps : List Predicate) : EntityQuery := ps.foldl addFilter q

theorem filter_addFilters {q : EntityQuery} {p : Predicate} (h : q.filter = some p)
    (ps : List Predicate) : (q.addFilters ps).filter = some (p.conjoin ps) := by
  induction ps generalizing q p with
  | nil => exact h
  | cons p' ps ih =>
    have hadd : (q.addFilter p').filter = some (p.and p') := by rw [addFilter, h]
    exact ih hadd

/-- The first filter of a query is stored as it is. -/
theorem filter_addFilters_cons {q : EntityQuery} (h : q.filter = none) (p : Predicate)
    (ps : List Predicate) : (q.addFilters (p :: ps)).filter = some (p.conjoin ps) := by
  have hadd : (q.addFilter p).filter = some p := by rw [addFilter, h]
  exact filter_addFilters hadd ps

/-- What is stored after filters were added is their conjunction, one level deeper than they
are at most. -/
structure Conjoined (q : EntityQuery) (ps : List Predicate) (p : Predicate) : Prop where
  stored : (q.addFilters ps).filter = some p
  holds : ∀ v, p.holds v = ps.all (·.holds v)
  atoms : p.atoms = ps.flatMap Predicate.atoms
  depth : p.depth ≤ 1 + Predicate.depthOperands ps

theorem exists_conjoined {q : EntityQuery} {ps : List Predicate} (hq : q.filter = none)
    (hps : ps ≠ []) : ∃ p, Conjoined q ps p := by
  obtain ⟨p, ps, rfl⟩ := List.exists_cons_of_ne_nil hps
  exact ⟨p.conjoin ps, filter_addFilters_cons hq p ps, fun v => p.holds_conjoin ps,
    p.atoms_conjoin ps, p.depth_conjoin_le ps⟩

/-- A chain of filters below the limit is within the limit. -/
theorem Conjoined.depth_le {q : EntityQuery} {ps : List Predicate} {p : Predicate} {limit : Nat}
    (h : Conjoined q ps p) (hps : ps ≠ []) (hlimit : ∀ p ∈ ps, p.depth < limit) :
    p.depth ≤ limit := by
  have hdeepest := Predicate.depthOperands_lt hps hlimit
  have hdepth := h.depth
  omega

end EntityQuery

/-- **Building a predicate keeps meaning, order and depth.** An expression over given predicates
builds a tree with the truth value of the expression, with the atoms of its inputs in their
order, and no deeper than the expression. Filters added to a query without one are stored as
their conjunction in this sense, one level deeper than the deepest of them at most, so filters
that are all below the limit are never refused for their depth, unless a type reports one of
its own accord. -/
theorem Combination.build_faithful :
    (∀ e : Combination, (∀ v, e.build.holds v = e.holds v) ∧
      e.build.atoms = e.inputs.flatMap Predicate.atoms ∧ e.build.depth ≤ e.depth) ∧
    ∀ (q : EntityQuery) (ps : List Predicate), q.filter = none → ps ≠ [] →
      ∃ p, q.Conjoined ps p ∧
        (∀ type : Option EntityType, (∀ t ∈ type, t.ReportsNoDepth) →
          ∀ dialect limit, (∀ pᵢ ∈ ps, pᵢ.depth < limit) →
            ∀ n, p.render (.root type dialect limit) ≠ .error (.depthExceeded n)) ∧
        ∀ resolver : Resolver, resolver.ReportsNoDepth →
          ∀ o : CompileOptions, (∀ pᵢ ∈ ps, pᵢ.depth < o.maxDepth) →
            ∀ n, (q.addFilters ps).compile resolver o ≠ .error (.depthExceeded n) := by
  constructor
  · intro e
    exact ⟨e.holds_build, e.atoms_build, e.depth_build_le⟩
  · intro q ps hq hps
    obtain ⟨p, hp⟩ := EntityQuery.exists_conjoined hq hps
    refine ⟨p, hp, ?_, ?_⟩
    · intro type htype dialect limit hlimit n hrender
      have hroom : p.depth ≤ (Scope.root type dialect limit).room := by
        rw [Scope.room_root]
        exact hp.depth_le hps hlimit
      exact p.render_notDepth (Scope.reportsNoDepth_root htype _ _) hroom _ hrender
    · intro resolver hresolver o hlimit n hcompile
      have hfilter : ∀ p' ∈ (q.addFilters ps).filter, p'.depth ≤ o.maxDepth := by
        rw [hp.stored]
        rintro _ ⟨⟩
        exact hp.depth_le hps hlimit
      exact EntityQuery.compile_notDepth hresolver hfilter _ hcompile

/-- The first filter is a conjunction of its own. -/
def catalogueFilters : List Predicate :=
  [.junction .and [.passthrough "inStock"],
    .junction .or [.passthrough "cheap", .passthrough "featured"],
    .not (.passthrough "discontinued")]

def product : TypeDefinition where
  name := "Product"
  resource := some "Products"

def catalogue : Schema where
  entityTypes := [product]

/-- A type of no schema, which takes every path as it stands. -/
def mirror : EntityType :=
  .other (fun _ => {
    name := "Mirror"
    isAnonymous := false
    properties := fun _ => .ok []
    serverPath := fun path _ => .ok path.dotted
    validatePaths := fun _ => .ok ()
    leadsOn := fun _ => true }) []

theorem Combination.build_catalogueFilters :
    (EntityQuery.ofResource "Products").filter = none ∧ catalogueFilters ≠ [] ∧
    (∀ p ∈ catalogueFilters, p.depth < 3) ∧
    (∀ t ∈ some mirror, t.ReportsNoDepth) ∧
    (Resolver.schema catalogue).ReportsNoDepth ∧ (Resolver.absent .none).ReportsNoDepth ∧
    ∃ p, (EntityQuery.ofResource "Products").Conjoined catalogueFilters p ∧
      p.atoms = [.passthrough "inStock", .passthrough "cheap", .passthrough "featured",
        .passthrough "discontinued"] ∧
      (∀ n, p.render (.root (some mirror) .v4 3) ≠ .error (.depthExceeded n)) ∧
      ∀ n, ((EntityQuery.ofResource "Products").addFilters catalogueFilters).compile
          (.schema catalogue) ⟨.v4, 3⟩ ≠ .error (.depthExceeded n) ∧
        ((EntityQuery.ofResource "Products").addFilters catalogueFilters).compile
          (.absent .none) ⟨.v4, 3⟩ ≠ .error (.depthExceeded n) := by
  have hne : catalogueFilters ≠ [] := List.cons_ne_nil _ _
  have hdepth : ∀ p ∈ catalogueFilters, p.depth < 3 := by decide
  have htype : ∀ t ∈ some mirror, t.ReportsNoDepth := by
    rintro _ ⟨⟩ _
    exact ⟨fun _ => .ok _, fun _ _ => .ok _, fun _ => .ok _⟩
  have hschema := Resolver.reportsNoDepth_schema catalogue
  have habsent := Resolver.reportsNoDepth_absent .none
  obtain ⟨p, hp, hrender, hcompile⟩ := build_faithful.2 (.ofResource "Products") _ rfl hne
  refine ⟨rfl, hne, hdepth, htype, hschema, habsent, p, hp, hp.atoms,
    hrender _ htype .v4 3 hdepth, ?_⟩
  intro n
  exact ⟨hcompile _ hschema ⟨.v4, 3⟩ hdepth n, hcompile _ habsent ⟨.v4, 3⟩ hdepth n⟩

end ODataQuery
