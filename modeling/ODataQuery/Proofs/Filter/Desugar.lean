import ODataQuery.Proofs.Filter.Rendering

/-!
# The older dialect as sugar

Version 4 writes a tree as version 4.01 writes another one, in which membership
is a disjunction of comparisons and `contains` is `substringof`. A disjunct lies
one level deeper than the membership it stands for, so that tree may need one
level more. Both dialects refuse the same trees for the same reasons.
-/

namespace ODataQuery

namespace Predicate

/-- Membership in a literal list spelled out, and `contains` under its older name. -/
def desugarBinary : BinaryOp → Expr → Expr → Predicate
  | .isIn, left, .literal type (.list values) =>
    .junction .or (values.map fun v => .binary .eq left (.literal type v))
  | .contains, left, right => .binary .substringOf left right
  | op, left, right => .binary op left right

mutual

def desugar : Predicate → Predicate
  | .passthrough text => .passthrough text
  | .not operand => .not operand.desugar
  | .binary op left right => desugarBinary op left right
  | .junction op operands => .junction op (desugarAll operands)
  | .lambda op source body => .lambda op source body.desugar

def desugarAll : List Predicate → List Predicate
  | [] => []
  | p :: ps => p.desugar :: desugarAll ps

end

end Predicate

/-- A scope of version 4.01 that agrees with one of version 4 and has a level to
spare. -/
structure Scope.Hosts (σ' σ : Scope) : Prop where
  entityType : σ'.entityType = σ.entityType
  bound : σ'.bound = σ.bound
  older : σ.dialect = .v4
  newer : σ'.dialect = .v401
  room : σ.room + 1 ≤ σ'.room

namespace Scope.Hosts

variable {σ σ' : Scope} (h : σ'.Hosts σ)
include h

theorem pos : 0 < σ'.room := by
  have := h.room
  omega

theorem deeper (hpos : 0 < σ.room) : σ'.deeper.Hosts σ.deeper := by
  refine ⟨h.entityType, h.bound, h.older, h.newer, ?_⟩
  have hroom := h.room
  simp only [room_deeper]
  omega

theorem bind (source : Expr) : (σ'.bind source).Hosts (σ.bind source) := by
  refine ⟨?_, ?_, h.older, h.newer, h.room⟩
  · simp only [Scope.bind, elementType, h.entityType]
  · simp only [Scope.bind, nextVariable, h.bound]

theorem qualify (text : String) : σ'.qualify text = σ.qualify text := by
  simp only [Scope.qualify, h.bound]

end Scope.Hosts

namespace Predicate

theorem comparisonText_v401 {op : BinaryOp} (h : op ≠ .contains) (left right : String) :
    comparisonText .v401 op left right = comparisonText .v4 op left right := by
  have htoken : Dialect.token .v4 op.key = op.key := by
    cases op <;> simp_all [Dialect.token, BinaryOp.key]
  simp only [comparisonText, htoken, show Dialect.token .v401 op.key = op.key from rfl]

theorem comparisonText_substringOf (left right : String) :
    comparisonText .v401 .substringOf left right = comparisonText .v4 .contains left right := by
  simp [comparisonText, Dialect.token, BinaryOp.key, BinaryOp.isFunction]

theorem render_comparison_hosts {op op' : BinaryOp} {left right : Expr} {σ σ' : Scope} {t : String}
    (hosts : σ'.Hosts σ) (hop : op ≠ .isIn) (hop' : op' ≠ .isIn)
    (htext : ∀ l r, comparisonText .v401 op' l r = comparisonText .v4 op l r)
    (h : (binary op left right).render σ = .ok t) : (binary op' left right).render σ' = .ok t := by
  rw [render_comparison hop] at h
  rw [render_comparison hop']
  obtain ⟨hpos, l, r, hl, hr, rfl⟩ := h
  have hdeeper := hosts.deeper hpos
  have hroom : σ.deeper.room ≤ σ'.deeper.room := by
    have := hdeeper.room
    omega
  refine ⟨hosts.pos, l, r, Expr.render_of_room left hdeeper.entityType hroom hl,
    Expr.render_of_room right hdeeper.entityType hroom hr, ?_⟩
  rw [hosts.newer, hosts.older, htext, hosts.qualify]

theorem literalFragment_of_literal {type : DataType} {v : Value} {text : String}
    (h : type.literal v = .ok text) : Expr.literalFragment type v = .ok (.text text) := by
  cases v with
  | list items =>
    obtain ⟨e, he⟩ := type.literal_list items
    rw [he] at h
    cases h
  | null | bool | int | float | string | timestamp =>
    simp only [Expr.literalFragment, h, ok_bind, pure_eq_ok]

/-- Each comparison of the disjunction is what the chain writes for its element. -/
theorem renderOperands_disjuncts {type : DataType} {left : Expr} {σ : Scope} {l : String}
    (hdialect : σ.dialect = .v401) (hleft : left.render σ.deeper = .ok (.text l))
    {values : List Value} {items : List String} (h : values.mapM type.literal = .ok items) :
    renderOperands (values.map fun v => .binary .eq left (.literal type v)) σ =
      .ok (items.map fun item => "(" ++ σ.qualify l ++ " eq " ++ item ++ ")") := by
  induction values generalizing items with
  | nil =>
    cases h
    rfl
  | cons v values ih =>
    simp only [List.mapM_cons, bind_eq_ok, pure_eq_ok, Except.ok.injEq] at h
    obtain ⟨item, hitem, rest, hrest, rfl⟩ := h
    have hpos := Expr.room_pos_of_render hleft
    have hliteral : (Expr.literal type v).render σ.deeper = .ok (.text item) :=
      Expr.render_literal.mpr ⟨hpos, literalFragment_of_literal hitem⟩
    rw [List.map_cons, renderOperands_cons]
    refine ⟨σ.qualify l ++ " eq " ++ item, _, ?_, ih hrest, by simp [String.append_assoc]⟩
    rw [render_comparison (by decide)]
    refine ⟨?_, l, item, hleft, hliteral, ?_⟩
    · rw [Scope.room_deeper] at hpos
      omega
    · rw [hdialect, ← String.toList_inj]
      simp [comparisonText, Dialect.token, BinaryOp.key, BinaryOp.isFunction]

theorem membershipText_v4 (left : String) (items : List String) :
    membershipText .v4 left items =
      " or ".intercalate (items.map fun item => "(" ++ left ++ " eq " ++ item ++ ")") := by
  cases items <;> simp [membershipText, Dialect.hasNativeIn]

theorem render_membership_hosts {left : Expr} {type : DataType} {values : List Value}
    {σ σ' : Scope} {t : String} (hosts : σ'.Hosts σ)
    (h : (binary .isIn left (.literal type (.list values))).render σ = .ok t) :
    (desugarBinary .isIn left (.literal type (.list values))).render σ' = .ok t := by
  rw [render_membership] at h
  obtain ⟨hpos, l, items, hl, hr, rfl⟩ := h
  rw [Expr.render_literal, Expr.literalFragment] at hr
  obtain ⟨hinner, hr⟩ := hr
  simp only [bind_eq_ok, pure_eq_ok, Except.ok.injEq, Fragment.list.injEq] at hr
  obtain ⟨_, hitems, rfl⟩ := hr
  have hdeeper := hosts.deeper hpos
  have hroom : σ.deeper.room ≤ σ'.deeper.deeper.room := by
    have hspare := hdeeper.room
    have hlevel := Scope.room_deeper σ'.deeper
    omega
  have hl' : left.render σ'.deeper.deeper = .ok (.text l) :=
    Expr.render_of_room left hdeeper.entityType hroom hl
  rw [desugarBinary, render_junction]
  refine ⟨hosts.pos, _, renderOperands_disjuncts hdeeper.newer hl' hitems, ?_⟩
  rw [hosts.older, membershipText_v4, hdeeper.qualify]
  rfl

theorem render_desugarBinary (op : BinaryOp) (left right : Expr) {σ σ' : Scope} {t : String}
    (hosts : σ'.Hosts σ) (h : (binary op left right).render σ = .ok t) :
    (desugarBinary op left right).render σ' = .ok t := by
  unfold desugarBinary
  split
  · exact render_membership_hosts hosts h
  · exact render_comparison_hosts hosts (by decide) (by decide) comparisonText_substringOf h
  · rename_i hcontains hlist
    by_cases hop : op = .isIn
    · -- only a list literal is accepted behind a membership
      subst hop
      obtain ⟨-, l, items, -, hr, -⟩ := render_membership.mp h
      obtain ⟨type, values, rfl⟩ := Expr.eq_literal_of_render_list hr
      exact absurd rfl (hlist type values rfl)
    · exact render_comparison_hosts hosts hop hop (comparisonText_v401 hcontains) h

mutual

theorem render_desugar_hosts (p : Predicate) {σ σ' : Scope} {t : String} (hosts : σ'.Hosts σ)
    (h : p.render σ = .ok t) : p.desugar.render σ' = .ok t := by
  cases p with
  | passthrough text =>
    rw [desugar, render_passthrough]
    exact ⟨hosts.pos, (render_passthrough.mp h).2⟩
  | not p =>
    rw [render_not] at h
    obtain ⟨hpos, s, hs, rfl⟩ := h
    rw [desugar, render_not]
    exact ⟨hosts.pos, s, render_desugar_hosts p (hosts.deeper hpos) hs, rfl⟩
  | binary op left right => exact render_desugarBinary op left right hosts h
  | junction op ps =>
    rw [render_junction] at h
    obtain ⟨hpos, texts, htexts, rfl⟩ := h
    rw [desugar, render_junction]
    exact ⟨hosts.pos, texts, renderOperands_desugarAll ps (hosts.deeper hpos) htexts, rfl⟩
  | lambda op source body =>
    rw [render_lambda] at h
    obtain ⟨hpos, s, b, hs, hb, rfl⟩ := h
    have hdeeper := hosts.deeper hpos
    have hroom : σ.deeper.room ≤ σ'.deeper.room := by
      have hspare := hdeeper.room
      omega
    rw [desugar, render_lambda]
    refine ⟨hosts.pos, s, b, Expr.render_of_room source hdeeper.entityType hroom hs,
      render_desugar_hosts body (hdeeper.bind source) hb, ?_⟩
    rw [hosts.qualify, Scope.nextVariable, Scope.nextVariable, hosts.bound]

theorem renderOperands_desugarAll (ps : List Predicate) {σ σ' : Scope} {texts : List String}
    (hosts : σ'.Hosts σ) (h : renderOperands ps σ = .ok texts) :
    renderOperands (desugarAll ps) σ' = .ok texts := by
  cases ps with
  | nil => exact h
  | cons p ps =>
    rw [renderOperands_cons] at h
    obtain ⟨text, rest, hp, hps, rfl⟩ := h
    rw [desugarAll, renderOperands_cons]
    exact ⟨text, rest, render_desugar_hosts p hosts hp, renderOperands_desugarAll ps hosts hps, rfl⟩

end

end Predicate

/-- The same scope in another dialect. -/
def Scope.speaking (σ : Scope) (d : Dialect) : Scope := { σ with dialect := d }

theorem Scope.enter_speaking (σ : Scope) (d : Dialect) :
    (σ.speaking d).enter = σ.enter.map (·.speaking d) := by
  by_cases h : 0 < σ.room
  · rw [enter_of_room h, enter_of_room (show 0 < (σ.speaking d).room from h)]
    rfl
  · rw [enter_of_no_room h, enter_of_no_room (show ¬0 < (σ.speaking d).room from h)]
    rfl

namespace Expr

mutual

theorem render_dialect (e : Expr) (σ : Scope) (d : Dialect) :
    e.render (σ.speaking d) = e.render σ := by
  cases e with
  | literal type value => simp only [render, Scope.enter_speaking, map_bind]
  | property path =>
    simp only [render, Scope.enter_speaking, map_bind]
    rfl
  | function name args =>
    simp only [render, Scope.enter_speaking, map_bind, renderArgs_dialect args _ d]

theorem renderArgs_dialect (es : List Expr) (σ : Scope) (d : Dialect) :
    renderArgs es (σ.speaking d) = renderArgs es σ := by
  cases es with
  | nil => rfl
  | cons e es => simp only [renderArgs, render_dialect e σ d, renderArgs_dialect es σ d]

end

end Expr

namespace Predicate

theorem renderBinary_failAlike (op : BinaryOp) (left right : Expr) (σ : Scope) (d d' : Dialect) :
    FailAlike (renderBinary op left right (σ.speaking d))
      (renderBinary op left right (σ.speaking d')) := by
  simp only [renderBinary, Expr.render_dialect left σ, Expr.render_dialect right σ]
  refine (FailAlike.of_eq rfl).bind fun l l' hl hl' => ?_
  obtain rfl := Except.ok.inj (hl.symm.trans hl')
  refine (FailAlike.of_eq rfl).bind fun _ _ _ _ => ?_
  refine (FailAlike.of_eq rfl).bind fun r r' hr hr' => ?_
  obtain rfl := Except.ok.inj (hr.symm.trans hr')
  split
  · exact (FailAlike.of_eq rfl).bind_pure
  · exact (FailAlike.of_eq rfl).bind_pure

theorem enter_failAlike (σ : Scope) (d d' : Dialect) :
    FailAlike (σ.speaking d).enter (σ.speaking d').enter := by
  rw [Scope.enter_speaking, Scope.enter_speaking]
  cases σ.enter with
  | ok inner => trivial
  | error e => exact rfl

/-- A node that enters its scope fails alike when what it does there does. -/
theorem enter_bind_failAlike {α β : Type} {f : Scope → Except QueryError α}
    {g : Scope → Except QueryError β} (σ : Scope) (d d' : Dialect)
    (h : FailAlike (f (σ.deeper.speaking d)) (g (σ.deeper.speaking d'))) :
    FailAlike ((σ.speaking d).enter >>= f)
      ((σ.speaking d').enter >>= g) := by
  refine (enter_failAlike σ d d').bind fun inner inner' hinner hinner' => ?_
  obtain ⟨-, rfl⟩ := Scope.enter_eq_ok.mp hinner
  obtain ⟨-, rfl⟩ := Scope.enter_eq_ok.mp hinner'
  exact h

mutual

theorem render_failAlike (p : Predicate) (σ : Scope) (d d' : Dialect) :
    FailAlike (p.render (σ.speaking d)) (p.render (σ.speaking d')) := by
  cases p with
  | passthrough text =>
    simp only [render]
    exact enter_bind_failAlike σ d d' trivial
  | not p =>
    simp only [render]
    exact enter_bind_failAlike σ d d' (render_failAlike p σ.deeper d d').bind_pure
  | binary op left right =>
    simp only [render]
    exact enter_bind_failAlike σ d d' (renderBinary_failAlike op left right σ.deeper d d')
  | junction op ps =>
    simp only [render]
    exact enter_bind_failAlike σ d d' (renderOperands_failAlike ps σ.deeper d d').bind_pure
  | lambda op source body =>
    simp only [render]
    refine enter_bind_failAlike σ d d' ?_
    rw [Expr.render_dialect source σ.deeper, Expr.render_dialect source σ.deeper]
    refine (FailAlike.of_eq rfl).bind fun s s' hs hs' => ?_
    obtain rfl := Except.ok.inj (hs.symm.trans hs')
    refine (FailAlike.of_eq rfl).bind fun _ _ _ _ => ?_
    exact (render_failAlike body (σ.deeper.bind source) d d').bind_pure

theorem renderOperands_failAlike (ps : List Predicate) (σ : Scope) (d d' : Dialect) :
    FailAlike (renderOperands ps (σ.speaking d))
      (renderOperands ps (σ.speaking d')) := by
  cases ps with
  | nil => trivial
  | cons p ps =>
    simp only [renderOperands]
    refine (render_failAlike p σ d d').bind fun _ _ _ _ => ?_
    exact (renderOperands_failAlike ps σ d d').bind_pure

end

/-- **The older dialect is the newer one desugared.** What version 4 renders,
version 4.01 renders of the desugared tree, with one level more; and the two
refuse the same trees with the same error. -/
theorem render_v4_eq_desugar_v401 (p : Predicate) (type : Option EntityType) (bound : Option Nat)
    (depth limit : Nat) :
    (∀ t, p.render ⟨type, bound, .v4, depth, limit⟩ = .ok t →
      p.desugar.render ⟨type, bound, .v401, depth, limit + 1⟩ = .ok t) ∧
    ∀ e, p.render ⟨type, bound, .v4, depth, limit⟩ = .error e ↔
      p.render ⟨type, bound, .v401, depth, limit⟩ = .error e := by
  constructor
  · intro t h
    have hpos := room_pos_of_render h
    refine render_desugar_hosts p (σ := ⟨type, bound, .v4, depth, limit⟩) ⟨rfl, rfl, rfl, rfl, ?_⟩ h
    simp only [Scope.room] at hpos ⊢
    omega
  · exact (render_failAlike p ⟨type, bound, .v4, depth, limit⟩ .v4 .v401).error_iff

/-- A list and a substring inside a lambda. -/
def listed : Predicate :=
  .lambda .any (.property ⟨["orders"]⟩) (.junction .and [
    .binary .isIn (.property ⟨["status"]⟩) (.literal .int32 (.list [.int 1, .int 2])),
    .binary .contains (.property ⟨["note"]⟩) (.literal .string (.string "x"))])

def listedText : String :=
  "orders/any(x1: ((x1/status eq 1) or (x1/status eq 2)) and (substringof('x',x1/note) eq true))"

theorem render_listed : listed.render ⟨none, none, .v4, 0, 4⟩ = .ok listedText ∧
    listed.desugar.render ⟨none, none, .v401, 0, 5⟩ = .ok listedText := by
  have h : listed.render ⟨none, none, .v4, 0, 4⟩ = .ok listedText := by rfl
  exact ⟨h, (render_v4_eq_desugar_v401 listed none none 0 4).1 _ h⟩

end Predicate

end ODataQuery
