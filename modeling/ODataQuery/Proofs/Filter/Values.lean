import ODataQuery.Proofs.Filter.Leaves

namespace ODataQuery

namespace Expr

mutual

/-- The expression with another value in each literal. -/
def mapValues (f : Value → Value) : Expr → Expr
  | .literal type v => .literal type (f v)
  | .property path => .property path
  | .function name args => .function name (mapArgs f args)

def mapArgs (f : Value → Value) : List Expr → List Expr
  | [] => []
  | e :: es => e.mapValues f :: mapArgs f es

end

end Expr

namespace Predicate

mutual

def mapValues (f : Value → Value) : Predicate → Predicate
  | .passthrough text => .passthrough text
  | .not p => .not (p.mapValues f)
  | .binary op left right => .binary op (left.mapValues f) (right.mapValues f)
  | .junction op ps => .junction op (mapOperands f ps)
  | .lambda op source body => .lambda op (source.mapValues f) (body.mapValues f)

def mapOperands (f : Value → Value) : List Predicate → List Predicate
  | [] => []
  | p :: ps => p.mapValues f :: mapOperands f ps

end

end Predicate

variable {f : Value → Value}

mutual

theorem Expr.mapValues_eq_self (e : Expr)
    (h : ∀ type v, .literal type v ∈ e.leaves → f v = v) : e.mapValues f = e := by
  cases e with
  | literal type v => rw [mapValues, h type v List.mem_cons_self]
  | property path => rfl
  | function name args => rw [mapValues, mapArgs_eq_self args h]

theorem Expr.mapArgs_eq_self (es : List Expr)
    (h : ∀ type v, .literal type v ∈ argLeaves es → f v = v) : mapArgs f es = es := by
  cases es with
  | nil => rfl
  | cons e es =>
    have hhead := mapValues_eq_self e fun type v hv => h type v (List.mem_append_left _ hv)
    have htail := mapArgs_eq_self es fun type v hv => h type v (List.mem_append_right _ hv)
    rw [mapArgs, hhead, htail]

end

mutual

theorem Predicate.mapValues_eq_self (p : Predicate)
    (h : ∀ type v, .literal type v ∈ p.leaves → f v = v) : p.mapValues f = p := by
  cases p with
  | passthrough text => rfl
  | not p => rw [mapValues, mapValues_eq_self p h]
  | binary op left right =>
    have hleft := left.mapValues_eq_self fun type v hv => h type v (List.mem_append_left _ hv)
    have hright := right.mapValues_eq_self fun type v hv => h type v (List.mem_append_right _ hv)
    rw [mapValues, hleft, hright]
  | junction op ps => rw [mapValues, mapOperands_eq_self ps h]
  | lambda op source body =>
    have hsource := source.mapValues_eq_self fun type v hv => h type v (List.mem_append_left _ hv)
    have hbody := mapValues_eq_self body fun type v hv => h type v (List.mem_append_right _ hv)
    rw [mapValues, hsource, hbody]

theorem Predicate.mapOperands_eq_self (ps : List Predicate)
    (h : ∀ type v, .literal type v ∈ leavesAll ps → f v = v) : mapOperands f ps = ps := by
  cases ps with
  | nil => rfl
  | cons p ps =>
    have hhead := mapValues_eq_self p fun type v hv => h type v (List.mem_append_left _ hv)
    have htail := mapOperands_eq_self ps fun type v hv => h type v (List.mem_append_right _ hv)
    rw [mapOperands, hhead, htail]

end

variable {Q : ∀ {α : Type}, Except QueryError α → Except QueryError α → Prop}

namespace Expr

mutual

theorem render_mapValues (hQ : Congruent Q) (e : Expr) (σ : Scope)
    (h : ∀ type v, .literal type v ∈ e.leaves →
      Q (literalFragment type v) (literalFragment type (f v))) :
    Q (e.render σ) ((e.mapValues f).render σ) := by
  cases e with
  | literal type v =>
    simp only [mapValues, render]
    exact hQ.bind (hQ.refl _) fun _ => h type v List.mem_cons_self
  | property path => exact hQ.refl _
  | function name args =>
    simp only [mapValues, render]
    refine hQ.bind (hQ.refl _) fun inner => ?_
    exact hQ.then_same (renderArgs_mapArgs hQ args inner h) _

theorem renderArgs_mapArgs (hQ : Congruent Q) (es : List Expr) (σ : Scope)
    (h : ∀ type v, .literal type v ∈ argLeaves es →
      Q (literalFragment type v) (literalFragment type (f v))) :
    Q (renderArgs es σ) (renderArgs (mapArgs f es) σ) := by
  cases es with
  | nil => exact hQ.refl _
  | cons e es =>
    simp only [mapArgs, renderArgs]
    have hhead := render_mapValues hQ e σ fun type v hv => h type v (List.mem_append_left _ hv)
    have htail := renderArgs_mapArgs hQ es σ fun type v hv => h type v (List.mem_append_right _ hv)
    refine hQ.bind hhead fun fragment => hQ.bind (hQ.refl _) fun text => ?_
    exact hQ.then_same htail _

end

/-- Which type the elements of a source have does not depend on a value. -/
theorem bind_mapValues (source : Expr) (σ : Scope) :
    σ.bind (source.mapValues f) = σ.bind source := by
  cases source with
  | literal type v => rfl
  | property path => rfl
  | function name args => rfl

end Expr

namespace Predicate

mutual

/-- **The texts of two filters are related when those of their literals are.** -/
theorem render_mapValues (hQ : Congruent Q) (p : Predicate) (σ : Scope)
    (h : ∀ type v, .literal type v ∈ p.leaves →
      Q (Expr.literalFragment type v) (Expr.literalFragment type (f v))) :
    Q (p.render σ) ((p.mapValues f).render σ) := by
  cases p with
  | passthrough text => exact hQ.refl _
  | not p =>
    simp only [mapValues, render]
    refine hQ.bind (hQ.refl _) fun inner => ?_
    exact hQ.then_same (render_mapValues hQ p inner h) _
  | binary op left right =>
    simp only [mapValues, render, renderBinary]
    refine hQ.bind (hQ.refl _) fun inner => ?_
    have hleft := left.render_mapValues hQ inner fun type v hv =>
      h type v (List.mem_append_left _ hv)
    have hright := right.render_mapValues hQ inner fun type v hv =>
      h type v (List.mem_append_right _ hv)
    refine hQ.bind hleft fun fragment => hQ.bind (hQ.refl _) fun text => ?_
    exact hQ.then_same hright _
  | junction op ps =>
    simp only [mapValues, render]
    refine hQ.bind (hQ.refl _) fun inner => ?_
    exact hQ.then_same (renderOperands_mapOperands hQ ps inner h) _
  | lambda op source body =>
    simp only [mapValues, render, Expr.bind_mapValues]
    refine hQ.bind (hQ.refl _) fun inner => ?_
    have hsource := source.render_mapValues hQ inner fun type v hv =>
      h type v (List.mem_append_left _ hv)
    have hbody := render_mapValues hQ body (inner.bind source) fun type v hv =>
      h type v (List.mem_append_right _ hv)
    refine hQ.bind hsource fun fragment => hQ.bind (hQ.refl _) fun text => ?_
    exact hQ.then_same hbody _

theorem renderOperands_mapOperands (hQ : Congruent Q) (ps : List Predicate) (σ : Scope)
    (h : ∀ type v, .literal type v ∈ leavesAll ps →
      Q (Expr.literalFragment type v) (Expr.literalFragment type (f v))) :
    Q (renderOperands ps σ) (renderOperands (mapOperands f ps) σ) := by
  cases ps with
  | nil => exact hQ.refl _
  | cons p ps =>
    simp only [mapOperands, renderOperands]
    have hhead := render_mapValues hQ p σ fun type v hv => h type v (List.mem_append_left _ hv)
    have htail := renderOperands_mapOperands hQ ps σ fun type v hv =>
      h type v (List.mem_append_right _ hv)
    exact hQ.bind hhead fun text => hQ.then_same htail _

end

end Predicate

end ODataQuery
