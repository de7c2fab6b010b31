import ODataQuery.Proofs.Filter.Place

namespace ODataQuery

/-- The frame without the operands beside the way down. -/
def Frame.bare : Frame → Frame
  | .junction op _ _ => .junction op [] []
  | f => f

namespace Context

theorem scope_eq_of_bare {C D : Context} (h : C.map Frame.bare = D.map Frame.bare) (σ : Scope) :
    C.scope σ = D.scope σ := by
  have hbare (f : Frame) (τ : Scope) : f.bare.scope τ = f.scope τ := by cases f <;> rfl
  have hmap (E : Context) : E.scope σ = Context.scope (E.map Frame.bare) σ := by
    simp only [scope, List.foldl_map, hbare]
  rw [hmap C, hmap D, h]

theorem scope_root (C : Context) (type : Option EntityType) (dialect : Dialect) (limit : Nat) :
    C.scope (.root type dialect limit) =
      ⟨C.elementType type, if C.lambdas = 0 then none else some C.lambdas, dialect, C.length,
        limit⟩ := by
  rw [C.scope_eq]
  simp [Scope.root]

/-- The variables on the way down are no more than its levels, and neither is the
next one once its lambda has been entered. -/
theorem nextVariable_le_depth (C : Context) {type : Option EntityType} {dialect : Dialect}
    {limit : Nat} {inner : Scope} (h : (C.scope (.root type dialect limit)).enter = .ok inner) :
    inner.nextVariable ≤ inner.depth ∧ inner.depth ≤ limit := by
  obtain ⟨hroom, rfl⟩ := Scope.enter_eq_ok.mp h
  have hlambdas := C.lambdas_le_length
  rw [C.scope_root] at hroom ⊢
  simp only [Scope.room] at hroom
  have hnext : (if C.lambdas = 0 then none else some C.lambdas).getD 0 = C.lambdas := by
    split <;> simp_all
  simp only [Scope.nextVariable, Scope.deeper, hnext]
  omega

end Context

namespace Predicate

/-- **Operands are isolated from each other.** All fillings of a place are rendered
in the same scope and between the same texts. The scope has a variable for each
lambda above, the depth of the place and the type that the sources above lead to;
no operand beside the way matters. The variable of a lambda at the place fits into
a 32-bit word when the limit does. -/
theorem render_isolated (C : Context) (type : Option EntityType) (dialect : Dialect)
    (limit : Nat) :
    ∃ (pre post : String) (K : Scope),
      (∀ q t, (C.fill q).render (.root type dialect limit) = .ok t →
        ∃ s, q.render K = .ok s ∧ t = pre ++ s ++ post) ∧
      (∀ q t, (C.fill q).render (.root type dialect limit) = .ok t →
        ∀ r s, r.render K = .ok s →
          (C.fill r).render (.root type dialect limit) = .ok (pre ++ s ++ post)) ∧
      K = ⟨C.elementType type, if C.lambdas = 0 then none else some C.lambdas, dialect, C.length,
        limit⟩ ∧
      (∀ D : Context, D.map Frame.bare = C.map Frame.bare →
        D.scope (.root type dialect limit) = K) ∧
      C.lambdas ≤ K.depth ∧
      (limit < UInt32.size → ∀ inner, K.enter = .ok inner → inner.nextVariable < UInt32.size) := by
  obtain ⟨pre, post, hbetween, hreplace⟩ := C.render_between (.root type dialect limit)
  refine ⟨pre, post, C.scope (.root type dialect limit), hbetween, hreplace,
    C.scope_root type dialect limit, fun D hD => Context.scope_eq_of_bare hD _, ?_, ?_⟩
  · rw [C.scope_root]
    exact C.lambdas_le_length
  · intro hlimit inner hinner
    obtain ⟨hvariable, hdepth⟩ := C.nextVariable_le_depth hinner
    exact Nat.lt_of_le_of_lt (Nat.le_trans hvariable hdepth) hlimit

end Predicate

end ODataQuery
