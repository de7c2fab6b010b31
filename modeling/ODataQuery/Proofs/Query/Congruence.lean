import ODataQuery.Proofs.Outcome
import ODataQuery.Query.Compile

namespace ODataQuery

variable {Q : ∀ {α : Type}, Except QueryError α → Except QueryError α → Prop}

namespace Clause

variable {t t' : EntityType}

theorem orderBy_congr (hQ : Congruent Q) {items : List OrderItem}
    (hvalid : Q (t.validatePaths (items.map (·.path))) (t'.validatePaths (items.map (·.path))))
    (hpath : ∀ item ∈ items, Q (t.serverPath item.path "/") (t'.serverPath item.path "/")) :
    Q (orderBy t items) (orderBy t' items) := by
  refine hQ.bind hvalid fun _ => ?_
  refine hQ.then_same (hQ.mapM fun item hitem => ?_) _
  exact hQ.then_same (hpath item hitem) _

theorem select_congr (hQ : Congruent Q) {paths : List PropertyPath}
    (hvalid : Q (t.validatePaths paths) (t'.validatePaths paths))
    (hpath : ∀ path ∈ paths, Q (t.serverPath path "/") (t'.serverPath path "/")) :
    Q (select t paths) (select t' paths) := by
  refine hQ.bind hvalid fun _ => ?_
  exact hQ.then_same (hQ.mapM hpath) _

theorem expand_congr (hQ : Congruent Q) {paths : List PropertyPath}
    (hpath : ∀ path ∈ paths, Q (t.properties path) (t'.properties path)) :
    Q (expand t paths) (expand t' paths) := by
  refine hQ.then_same (hQ.mapM fun path hmem => ?_) _
  exact hQ.then_same (hpath path hmem) _

end Clause

namespace EntityQuery

theorem clauseText_congr (hQ : Congruent Q) {α : Type} {clause : Option α}
    {render render' : α → Except QueryError String}
    (h : ∀ c ∈ clause, Q (render c) (render' c)) :
    Q (clauseText clause render) (clauseText clause render') := by
  cases clause with
  | none => exact hQ.refl _
  | some c => exact hQ.then_same (h c rfl) _

variable {q : EntityQuery} {o : CompileOptions}

theorem options_congr (hQ : Congruent Q) {t t' : EntityType} (filter' : Option Predicate)
    (hfilter : Q (clauseText q.filter (·.render (.root (some t) o.dialect o.maxDepth)))
      (clauseText filter' (·.render (.root (some t') o.dialect o.maxDepth))))
    (horder : ∀ items ∈ q.orderBy, Q (Clause.orderBy t items) (Clause.orderBy t' items))
    (hexpand : ∀ paths ∈ q.expand, Q (Clause.expand t paths) (Clause.expand t' paths))
    (hselect : ∀ paths ∈ q.select, Q (Clause.select t paths) (Clause.select t' paths)) :
    Q (q.options t o) ({ q with filter := filter' }.options t' o) := by
  refine hQ.bind hfilter fun _ => ?_
  refine hQ.bind (clauseText_congr hQ horder) fun _ => ?_
  refine hQ.bind (clauseText_congr hQ hexpand) fun _ => ?_
  exact hQ.then_same (clauseText_congr hQ hselect) _

/-- Two compilations of a resource are related when the options against its types are. -/
theorem compile_congr (hQ : Congruent Q) {r r' : Resolver} (filter' : Option Predicate)
    (h : Q (q.options (r.entityType q.resourcePath) o)
      ({ q with filter := filter' }.options (r'.entityType q.resourcePath) o)) :
    Q (q.compile r o) ({ q with filter := filter' }.compile r' o) := by
  refine hQ.bind (hQ.refl _) fun _ => ?_
  exact hQ.then_same h _

end EntityQuery

end ODataQuery
