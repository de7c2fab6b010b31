import ODataQuery.Proofs.Filter.Place

/-!
# A filter sees a type through its paths

A type matters to a filter only in what it answers for the paths that stand in it, each
in the scope of its place. So a relation that holds between the texts of those paths
against two types, and that sequences respect, holds between the texts of the filter.
-/

namespace ODataQuery

/-- The text of a path where some type, or none, is in scope. -/
def PropertyPath.textIn (path : PropertyPath) : Option EntityType → Except QueryError String
  | some t => t.serverPath path "/"
  | none => .ok path.dotted

/-- The same scope over another type. -/
def Scope.over (σ : Scope) (t : Option EntityType) : Scope := { σ with entityType := t }

/-- The place below one more node. -/
def Place.under (X : Place) (f : Frame) : Place := { X with context := f :: X.context }

variable {Q : ∀ {α : Type}, Except QueryError α → Except QueryError α → Prop}

namespace Scope

theorem over_bind (σ : Scope) (t : Option EntityType) (source : Expr) :
    (σ.over t).bind source = (σ.bind source).over ((σ.over t).elementType source) := rfl

/-- Whether a scope can be entered does not depend on its type. -/
theorem enter_congr (hQ : Congruent Q) {α : Type} (σ : Scope) {t t' : Option EntityType}
    {f g : Scope → Except QueryError α} (h : Q (f (σ.deeper.over t)) (g (σ.deeper.over t'))) :
    Q ((σ.over t).enter >>= f) ((σ.over t').enter >>= g) := by
  by_cases hroom : 0 < σ.room
  · have henter (s : Option EntityType) : (σ.over s).enter = .ok (σ.deeper.over s) :=
      enter_of_room (σ := σ.over s) hroom
    rw [henter t, henter t']
    exact h
  · have henter (s : Option EntityType) : (σ.over s).enter = .error (.depthExceeded σ.limit) :=
      enter_of_no_room (σ := σ.over s) hroom
    rw [henter t, henter t']
    exact hQ.refl _

end Scope

namespace Expr

variable {t t' : Option EntityType}

mutual

/-- The calls around a path leave the type in scope as it is. -/
theorem render_congr (hQ : Congruent Q) (e : Expr) (σ : Scope)
    (h : ∀ calls path, e = Call.nest calls (.property path) → Q (path.textIn t) (path.textIn t')) :
    Q (e.render (σ.over t)) (e.render (σ.over t')) := by
  cases e with
  | literal type v =>
    simp only [render]
    exact Scope.enter_congr hQ σ (hQ.refl _)
  | property path =>
    simp only [render]
    apply Scope.enter_congr hQ σ
    exact hQ.then_same (h [] path rfl) _
  | function name args =>
    simp only [render]
    apply Scope.enter_congr hQ σ
    exact hQ.then_same (renderArgs_congr hQ args name [] σ.deeper h) _

/-- Those arguments that are left, behind those already rendered. -/
theorem renderArgs_congr (hQ : Congruent Q) (es : List Expr) (name : String) (before : List Expr)
    (σ : Scope)
    (h : ∀ calls path, function name (before ++ es) = Call.nest calls (.property path) →
      Q (path.textIn t) (path.textIn t')) :
    Q (renderArgs es (σ.over t)) (renderArgs es (σ.over t')) := by
  cases es with
  | nil => exact hQ.refl _
  | cons e es =>
    simp only [renderArgs]
    have hhead : Q (e.render (σ.over t)) (e.render (σ.over t')) := by
      apply render_congr hQ e σ
      rintro calls path rfl
      exact h (⟨name, before, es⟩ :: calls) path rfl
    have htail : Q (renderArgs es (σ.over t)) (renderArgs es (σ.over t')) := by
      apply renderArgs_congr hQ es name (before ++ [e]) σ
      intro calls path hcalls
      rw [List.append_assoc, List.singleton_append] at hcalls
      exact h calls path hcalls
    refine hQ.bind hhead fun f => hQ.bind (hQ.refl _) fun text => ?_
    exact hQ.then_same htail _

end

end Expr

namespace Predicate

variable {t t' : Option EntityType}

theorem renderBinary_congr (hQ : Congruent Q) (op : BinaryOp) (left right : Expr) (σ : Scope)
    (hleft : Q (left.render (σ.over t)) (left.render (σ.over t')))
    (hright : Q (right.render (σ.over t)) (right.render (σ.over t'))) :
    Q (renderBinary op left right (σ.over t)) (renderBinary op left right (σ.over t')) := by
  refine hQ.bind hleft fun f => hQ.bind (hQ.refl _) fun text => ?_
  exact hQ.then_same hright _

mutual

/-- **Only the paths of a filter tell two types apart.** -/
theorem render_congr (hQ : Congruent Q) (p : Predicate) (σ : Scope) {t t' : Option EntityType}
    (h : ∀ X path, p = Place.fill X (.property path) →
      Q (path.textIn (X.context.elementType t)) (path.textIn (X.context.elementType t'))) :
    Q (p.render (σ.over t)) (p.render (σ.over t')) := by
  have hslot (s : Slot) (e : Expr) (hp : p = s.fill e) :
      Q (e.render (σ.deeper.over t)) (e.render (σ.deeper.over t')) := by
    apply Expr.render_congr hQ e
    rintro calls path rfl
    exact h ⟨[], s, calls⟩ path hp
  cases p with
  | passthrough text =>
    simp only [render]
    exact Scope.enter_congr hQ σ (hQ.refl _)
  | not p =>
    simp only [render]
    apply Scope.enter_congr hQ σ
    refine hQ.then_same (render_congr hQ p σ.deeper ?_) _
    rintro X path rfl
    exact h (X.under .not) path rfl
  | binary op left right =>
    simp only [render]
    apply Scope.enter_congr hQ σ
    exact renderBinary_congr hQ op left right σ.deeper
      (hslot (.leftOperand op right) left rfl) (hslot (.rightOperand op left) right rfl)
  | junction op ps =>
    simp only [render]
    apply Scope.enter_congr hQ σ
    exact hQ.then_same (renderOperands_congr hQ ps op [] σ.deeper h) _
  | lambda op source body =>
    simp only [render]
    apply Scope.enter_congr hQ σ
    have hbody : Q (body.render ((σ.deeper.over t).bind source))
        (body.render ((σ.deeper.over t').bind source)) := by
      rw [Scope.over_bind, Scope.over_bind]
      apply render_congr hQ body
      rintro X path rfl
      -- below the lambda the type in scope is that of its source's elements
      have hplace := h (X.under (.lambda op source)) path rfl
      cases source <;> exact hplace
    refine hQ.bind (hslot (.lambdaSource op body) source rfl) fun f => ?_
    refine hQ.bind (hQ.refl _) fun text => ?_
    exact hQ.then_same hbody _

/-- Those operands that are left, behind those already rendered. -/
theorem renderOperands_congr (hQ : Congruent Q) (ps : List Predicate) (op : Connective)
    (before : List Predicate) (σ : Scope) {t t' : Option EntityType}
    (h : ∀ X path, junction op (before ++ ps) = Place.fill X (.property path) →
      Q (path.textIn (X.context.elementType t)) (path.textIn (X.context.elementType t'))) :
    Q (renderOperands ps (σ.over t)) (renderOperands ps (σ.over t')) := by
  cases ps with
  | nil => exact hQ.refl _
  | cons p ps =>
    simp only [renderOperands]
    have hhead : Q (p.render (σ.over t)) (p.render (σ.over t')) := by
      apply render_congr hQ p σ
      rintro X path rfl
      exact h (X.under (.junction op before ps)) path rfl
    have htail : Q (renderOperands ps (σ.over t)) (renderOperands ps (σ.over t')) := by
      apply renderOperands_congr hQ ps op (before ++ [p]) σ
      intro X path hX
      rw [List.append_assoc, List.singleton_append] at hX
      exact h X path hX
    exact hQ.bind hhead fun text => hQ.then_same htail _

end

end Predicate

end ODataQuery
