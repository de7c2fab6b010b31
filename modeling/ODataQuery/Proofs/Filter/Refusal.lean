import ODataQuery.Proofs.Clause
import ODataQuery.Proofs.Filter.Depth
import ODataQuery.Proofs.Literal.Refusal

namespace ODataQuery

/-- Any error but the one that the depth limit gives. -/
def QueryError.NotDepth : QueryError → Prop
  | .depthExceeded _ => False
  | _ => True

open QueryError (NotDepth)

theorem DataType.literal_notDepth (type : DataType) (v : Value) :
    FailsOnly NotDepth (type.literal v) := by
  refine (type.literal_fails v).mono ?_
  rintro _ ⟨text, rfl⟩
  trivial

theorem Schema.walkFrom_notDepth (s : Schema) (root : TypeDefinition) (path : PropertyPath)
    (current : Option TypeDefinition) (segments : List String) :
    FailsOnly NotDepth (s.walkFrom root path current segments) := by
  induction segments generalizing current with
  | nil => exact .ok _
  | cons segment rest ih =>
    cases current with
    | none => exact .error trivial
    | some d =>
      rw [walkFrom]
      cases s.step? d segment with
      | none => exact .error trivial
      | some step => exact (ih step.2).bind_pure _

/-- No answer reports a depth. -/
structure EntityAnswers.ReportsNoDepth (a : EntityAnswers) : Prop where
  properties : ∀ path, FailsOnly NotDepth (a.properties path)
  serverPath : ∀ path delimiter, FailsOnly NotDepth (a.serverPath path delimiter)
  validatePaths : ∀ paths, FailsOnly NotDepth (a.validatePaths paths)

namespace EntityType

/-- The type does not report a depth, nor does any that paths lead to from it. Types of a
schema and anonymous types never do. -/
def ReportsNoDepth : EntityType → Prop
  | .other answers followed => ∀ further, (answers (followed ++ further)).ReportsNoDepth
  | _ => True

theorem ReportsNoDepth.answers {answers : List PropertyPath → EntityAnswers}
    {followed : List PropertyPath} (h : (other answers followed).ReportsNoDepth) :
    (answers followed).ReportsNoDepth := by
  have hhere := h []
  rwa [List.append_nil] at hhere

variable {t : EntityType} (ht : t.ReportsNoDepth)
include ht

theorem properties_notDepth (path : PropertyPath) : FailsOnly NotDepth (t.properties path) := by
  cases t with
  | anonymous naming => exact .error trivial
  | declared s d => exact (s.walkFrom_notDepth d path _ _).map _
  | other answers followed => exact ht.answers.properties path

theorem serverPath_notDepth (path : PropertyPath) (delimiter : String) :
    FailsOnly NotDepth (t.serverPath path delimiter) := by
  cases t with
  | anonymous naming => exact .ok _
  | declared s d => exact (properties_notDepth ht path).bind_pure _
  | other answers followed => exact ht.answers.serverPath path delimiter

theorem validatePaths_notDepth (paths : List PropertyPath) :
    FailsOnly NotDepth (t.validatePaths paths) := by
  cases t with
  | anonymous naming => exact .ok _
  | declared s d =>
    rw [validatePaths_eq rfl]
    exact (FailsOnly.mapM fun path _ => properties_notDepth ht path).map _
  | other answers followed => exact ht.answers.validatePaths paths

theorem element?_reportsNoDepth {path : PropertyPath} :
    ∀ e ∈ t.element? path, e.ReportsNoDepth := by
  intro e he
  cases t with
  | anonymous naming => cases he
  | declared s d =>
    obtain ⟨_, _, -, -, rfl⟩ := element?_eq_some.mp he
    trivial
  | other answers followed =>
    obtain ⟨-, ⟨⟩⟩ := Option.ite_none_right_eq_some.mp he
    intro further
    rw [List.append_assoc]
    exact ht (path :: further)

end EntityType

namespace Resolver

/-- No type that a resource has reports a depth. -/
def ReportsNoDepth (r : Resolver) : Prop :=
  ∀ resource, (r.entityType resource).ReportsNoDepth

theorem reportsNoDepth_absent (naming : NamingConvention) : (absent naming).ReportsNoDepth :=
  fun _ => trivial

theorem reportsNoDepth_schema (s : Schema) : (schema s).ReportsNoDepth := by
  intro resource
  have htype : (schema s).entityType resource =
      ((s.resource? resource).map (.declared s)).getD (.anonymous s.naming) := rfl
  rw [htype]
  cases s.resource? resource <;> trivial

end Resolver

namespace Clause

variable {t : EntityType} (ht : t.ReportsNoDepth)
include ht

theorem orderBy_notDepth (items : List OrderItem) : FailsOnly NotDepth (orderBy t items) := by
  apply (t.validatePaths_notDepth ht _).bind
  intro _ _
  refine (FailsOnly.mapM ?_).bind_pure _
  intro item _
  exact (t.serverPath_notDepth ht item.path "/").bind_pure _

theorem select_notDepth (paths : List PropertyPath) : FailsOnly NotDepth (select t paths) := by
  apply (t.validatePaths_notDepth ht _).bind
  intro _ _
  exact (FailsOnly.mapM fun path _ => t.serverPath_notDepth ht path "/").bind_pure _

theorem expand_notDepth (paths : List PropertyPath) : FailsOnly NotDepth (expand t paths) :=
  (FailsOnly.mapM fun path _ => (t.properties_notDepth ht path).bind_pure _).bind_pure _

end Clause

namespace Scope

/-- The type that paths resolve against reports no depth. -/
def ReportsNoDepth (σ : Scope) : Prop := ∀ t ∈ σ.entityType, t.ReportsNoDepth

theorem reportsNoDepth_root {type : Option EntityType} (h : ∀ t ∈ type, t.ReportsNoDepth)
    (dialect : Dialect) (limit : Nat) : (root type dialect limit).ReportsNoDepth := h

theorem ReportsNoDepth.bind {σ : Scope} (h : σ.ReportsNoDepth) (source : Expr) :
    (σ.bind source).ReportsNoDepth := by
  intro e he
  cases source with
  | literal | function => cases he
  | property path =>
    obtain ⟨t, ht, he⟩ := Option.bind_eq_some_iff.mp he
    exact t.element?_reportsNoDepth (h t ht) e he

variable {α : Type} {σ : Scope} {f : Scope → Except QueryError α} {levels : Nat}

/-- One level is there to enter a scope, and the others are there inside. -/
theorem enter_notDepth (ht : σ.ReportsNoDepth) (hroom : levels + 1 ≤ σ.room)
    (h : σ.deeper.ReportsNoDepth → levels ≤ σ.deeper.room → FailsOnly NotDepth (f σ.deeper)) :
    FailsOnly NotDepth (σ.enter >>= f) := by
  rw [enter_of_room (Nat.zero_lt_of_lt hroom), ok_bind]
  apply h ht
  rw [room_deeper]
  exact Nat.le_sub_of_add_le hroom

end Scope

namespace Fragment

theorem asText_notDepth (f : Fragment) (position : Position) :
    FailsOnly NotDepth (f.asText position) := by
  cases f with
  | text s => exact .ok s
  | list items => exact .error trivial

theorem asList_notDepth (f : Fragment) : FailsOnly NotDepth f.asList := by
  cases f with
  | text s => exact .error trivial
  | list items => exact .ok items

end Fragment

namespace Expr

theorem literalFragment_notDepth (type : DataType) (v : Value) :
    FailsOnly NotDepth (literalFragment type v) := by
  cases v with
  | list items => exact (FailsOnly.mapM fun v _ => type.literal_notDepth v).bind_pure _
  | null | bool | int | float | string | timestamp =>
    exact (type.literal_notDepth _).bind_pure _

theorem pathText_notDepth {σ : Scope} (ht : σ.ReportsNoDepth) (path : PropertyPath) :
    FailsOnly NotDepth (pathText σ path) := by
  unfold pathText
  split
  case h_1 t htype => exact t.serverPath_notDepth (ht t htype) path "/"
  case h_2 => exact .ok _

mutual

theorem render_notDepth (e : Expr) {σ : Scope} (ht : σ.ReportsNoDepth) (h : e.depth ≤ σ.room) :
    FailsOnly NotDepth (e.render σ) := by
  cases e with
  | literal type v =>
    rw [render]
    exact Scope.enter_notDepth ht h fun _ _ => literalFragment_notDepth type v
  | property path =>
    rw [render]
    exact Scope.enter_notDepth ht h fun ht _ => (pathText_notDepth ht path).bind_pure _
  | function name args =>
    rw [render]
    exact Scope.enter_notDepth ht h fun ht hargs => (renderArgs_notDepth args ht hargs).bind_pure _

theorem renderArgs_notDepth (es : List Expr) {σ : Scope} (ht : σ.ReportsNoDepth)
    (h : depthArgs es ≤ σ.room) : FailsOnly NotDepth (renderArgs es σ) := by
  cases es with
  | nil => exact .ok _
  | cons e es =>
    rw [depthArgs, Nat.max_le] at h
    rw [renderArgs]
    apply (render_notDepth e ht h.1).bind
    intro f _
    apply (f.asText_notDepth _).bind
    intro text _
    exact (renderArgs_notDepth es ht h.2).bind_pure _

end

end Expr

namespace Predicate

theorem renderBinary_notDepth (op : BinaryOp) {left right : Expr} {σ : Scope}
    (ht : σ.ReportsNoDepth) (h : max left.depth right.depth ≤ σ.room) :
    FailsOnly NotDepth (renderBinary op left right σ) := by
  rw [Nat.max_le] at h
  apply (left.render_notDepth ht h.1).bind
  intro f _
  apply (f.asText_notDepth _).bind
  intro l _
  apply (right.render_notDepth ht h.2).bind
  intro g _
  dsimp only
  split
  · exact g.asList_notDepth.bind_pure _
  · exact (g.asText_notDepth _).bind_pure _

mutual

/-- **A tree that has the levels it needs is not refused for its depth.** -/
theorem render_notDepth (p : Predicate) {σ : Scope} (ht : σ.ReportsNoDepth)
    (h : p.depth ≤ σ.room) : FailsOnly NotDepth (p.render σ) := by
  cases p with
  | passthrough text =>
    rw [render]
    exact Scope.enter_notDepth ht h fun _ _ => .ok _
  | not operand =>
    rw [render]
    apply Scope.enter_notDepth ht h
    intro ht hoperand
    exact (render_notDepth operand ht hoperand).bind_pure _
  | binary op left right =>
    rw [render]
    exact Scope.enter_notDepth ht h fun ht hsides => renderBinary_notDepth op ht hsides
  | junction op operands =>
    rw [render]
    apply Scope.enter_notDepth ht h
    intro ht hoperands
    exact (renderOperands_notDepth operands ht hoperands).bind_pure _
  | lambda op source body =>
    rw [render]
    apply Scope.enter_notDepth ht h
    intro ht hparts
    rw [Nat.max_le] at hparts
    apply (source.render_notDepth ht hparts.1).bind
    intro f _
    apply (f.asText_notDepth _).bind
    intro s _
    -- the body's scope is another one, with the same levels left
    have hbody : body.depth ≤ (σ.deeper.bind source).room := hparts.2
    have htype : (σ.deeper.bind source).ReportsNoDepth := Scope.ReportsNoDepth.bind ht source
    exact (render_notDepth body htype hbody).bind_pure _

theorem renderOperands_notDepth (ps : List Predicate) {σ : Scope} (ht : σ.ReportsNoDepth)
    (h : depthOperands ps ≤ σ.room) : FailsOnly NotDepth (renderOperands ps σ) := by
  cases ps with
  | nil => exact .ok _
  | cons p ps =>
    rw [depthOperands, Nat.max_le] at h
    rw [renderOperands]
    apply (render_notDepth p ht h.1).bind
    intro text _
    exact (renderOperands_notDepth ps ht h.2).bind_pure _

end

end Predicate

namespace EntityQuery

theorem clauseText_notDepth {α : Type} {clause : Option α} {render : α → Except QueryError String}
    (h : ∀ c ∈ clause, FailsOnly NotDepth (render c)) :
    FailsOnly NotDepth (clauseText clause render) := by
  cases clause with
  | none => exact .ok _
  | some c => exact (h c rfl).bind_pure _

theorem compile_notDepth {q : EntityQuery} {resolver : Resolver} {o : CompileOptions}
    (ht : resolver.ReportsNoDepth) (h : ∀ p ∈ q.filter, p.depth ≤ o.maxDepth) :
    FailsOnly NotDepth (q.compile resolver o) := by
  have hvalidate : FailsOnly NotDepth o.validate := by
    unfold CompileOptions.validate
    split
    · exact .error trivial
    · exact .ok _
  have hoptions {t : EntityType} (ht : t.ReportsNoDepth) : FailsOnly NotDepth (q.options t o) := by
    have hroot : (Scope.root (some t) o.dialect o.maxDepth).ReportsNoDepth := by
      apply Scope.reportsNoDepth_root
      rintro _ ⟨⟩
      exact ht
    have hfilter : ∀ p ∈ q.filter, p.depth ≤ (Scope.root (some t) o.dialect o.maxDepth).room := by
      rwa [Scope.room_root]
    unfold options
    apply (clauseText_notDepth fun p hp => p.render_notDepth hroot (hfilter p hp)).bind
    intro _ _
    apply (clauseText_notDepth fun items _ => Clause.orderBy_notDepth ht items).bind
    intro _ _
    apply (clauseText_notDepth fun paths _ => Clause.expand_notDepth ht paths).bind
    intro _ _
    exact (clauseText_notDepth fun paths _ => Clause.select_notDepth ht paths).bind_pure _
  exact hvalidate.bind fun _ _ => (hoptions (ht _)).bind_pure _

end EntityQuery

end ODataQuery
