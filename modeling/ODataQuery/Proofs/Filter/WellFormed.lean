import ODataQuery.Proofs.Filter.Place

/-!
# Which filters can be rendered

A filter is rendered exactly when it is well formed: it is not too deep, lists stand
where membership takes them, literals fit their types and paths exist where they
are resolved. Each condition is about all places of the filter at once and none
mentions the order in which a renderer goes through them.
-/

namespace ODataQuery

/-- What a filter must satisfy against a type, with so many levels allowed. -/
structure Predicate.WellFormed (p : Predicate) (type : Option EntityType) (limit : Nat) : Prop where
  /-- The root is at level one and each child one level further down. -/
  predicate_level : ∀ (C : Context) (q : Predicate), p = C.fill q → C.length + 1 ≤ limit
  expr_level : ∀ (X : Place) (e : Expr), p = X.fill e → X.ancestors + 1 ≤ limit
  /-- A list stands only as the right operand of a membership, not inside a call. -/
  list_place : ∀ (X : Place) (declared : DataType) (items : List Value),
    p = X.fill (.literal declared (.list items)) →
      X.calls = [] ∧ ∃ left, X.slot = .rightOperand .isIn left
  /-- The right operand of a membership is a list. -/
  membership : ∀ (C : Context) (left right : Expr), p = C.fill (.binary .isIn left right) →
    ∃ declared items, right = .literal declared (.list items)
  scalar : ∀ (X : Place) (declared : DataType) (v : Value), p = X.fill (.literal declared v) →
    (∀ items, v ≠ .list items) → ∃ text, declared.literal v = .ok text
  element : ∀ (X : Place) (declared : DataType) (items : List Value),
    p = X.fill (.literal declared (.list items)) →
      ∀ v ∈ items, ∃ text, declared.literal v = .ok text
  /-- The type in scope knows the path; without a type every path passes. -/
  path : ∀ (X : Place) (path : PropertyPath), p = X.fill (.property path) →
    ∀ t ∈ X.context.elementType type, ∃ text, t.serverPath path "/" = .ok text

namespace Expr

theorem pathText_eq_ok_iff {σ : Scope} {path : PropertyPath} :
    (∃ text, pathText σ path = .ok text) ↔
      ∀ t ∈ σ.entityType, ∃ text, t.serverPath path "/" = .ok text := by
  unfold pathText
  cases σ.entityType <;> simp

end Expr

namespace Predicate

variable {p : Predicate} {type : Option EntityType} {dialect : Dialect} {limit : Nat}

theorem wellFormed_of_render {t : String} (h : p.render (.root type dialect limit) = .ok t) :
    p.WellFormed type limit where
  predicate_level := by
    rintro C q rfl
    obtain ⟨_, _, s, -, hs, -⟩ := C.render_fill.mp h
    have hroom := room_pos_of_render hs
    rw [C.room_scope, Scope.room_root] at hroom
    omega
  expr_level := by
    rintro X e rfl
    obtain ⟨f, hf, -⟩ := X.render_fill h
    have hroom := Expr.room_pos_of_render hf
    rw [X.room_scope, Scope.room_root] at hroom
    omega
  list_place := by
    rintro X declared items rfl
    obtain ⟨f, hf, hlist⟩ := X.render_fill h
    obtain ⟨texts, -, rfl⟩ := Expr.literalFragment_list_eq_ok.mp (Expr.render_literal.mp hf).2
    obtain ⟨hcalls, hslot⟩ := hlist texts rfl
    refine ⟨hcalls, ?_⟩
    cases hs : X.slot with
    | rightOperand op left =>
      rw [hs] at hslot
      exact ⟨left, by rw [of_decide_eq_true hslot]⟩
    | leftOperand | lambdaSource =>
      rw [hs] at hslot
      cases hslot
  membership := by
    rintro C left right rfl
    obtain ⟨_, _, s, -, hs, -⟩ := C.render_fill.mp h
    obtain ⟨-, _, items, -, hright, -⟩ := render_membership.mp hs
    exact Expr.eq_literal_of_render_list hright
  scalar := by
    rintro X declared v rfl hv
    obtain ⟨f, hf, -⟩ := X.render_fill h
    obtain ⟨text, htext, -⟩ :=
      (Expr.literalFragment_scalar_eq_ok hv).mp (Expr.render_literal.mp hf).2
    exact ⟨text, htext⟩
  element := by
    rintro X declared items rfl
    obtain ⟨f, hf, -⟩ := X.render_fill h
    obtain ⟨texts, htexts, -⟩ := Expr.literalFragment_list_eq_ok.mp (Expr.render_literal.mp hf).2
    exact exists_mapM_eq_ok.mp ⟨texts, htexts⟩
  path := by
    rintro X path rfl
    obtain ⟨f, hf, -⟩ := X.render_fill h
    obtain ⟨-, text, htext, -⟩ := Expr.render_property.mp hf
    have hpath := Expr.pathText_eq_ok_iff.mp ⟨text, htext⟩
    rwa [X.scope_entityType] at hpath

namespace WellFormed

section

variable (h : p.WellFormed type limit) (dialect : Dialect)
include h

theorem room_pos {C : Context} {q : Predicate} (hq : p = C.fill q) :
    0 < (C.scope (.root type dialect limit)).room := by
  have hlevel := h.predicate_level C q hq
  rw [C.room_scope, Scope.room_root]
  omega

theorem place_room_pos {X : Place} {e : Expr} (he : p = X.fill e) :
    0 < (X.scope (.root type dialect limit)).room := by
  have hlevel := h.expr_level X e he
  rw [X.room_scope, Scope.room_root]
  omega

theorem literalFragment_ok {X : Place} {declared : DataType} {v : Value}
    (he : p = X.fill (.literal declared v)) : ∃ f, Expr.literalFragment declared v = .ok f := by
  by_cases hv : ∃ items, v = .list items
  · obtain ⟨items, rfl⟩ := hv
    obtain ⟨texts, htexts⟩ := exists_mapM_eq_ok.mpr (h.element X declared items he)
    exact ⟨_, Expr.literalFragment_list_eq_ok.mpr ⟨texts, htexts, rfl⟩⟩
  · have hscalar : ∀ items, v ≠ .list items := fun items heq => hv ⟨items, heq⟩
    obtain ⟨text, htext⟩ := h.scalar X declared v he hscalar
    exact ⟨_, (Expr.literalFragment_scalar_eq_ok hscalar).mpr ⟨text, htext, rfl⟩⟩

mutual

theorem render_expr (e : Expr) {X : Place} (he : p = X.fill e) :
    ∃ f, e.render (X.scope (.root type dialect limit)) = .ok f := by
  have hroom := h.place_room_pos dialect he
  cases e with
  | literal declared v =>
    obtain ⟨f, hf⟩ := h.literalFragment_ok he
    exact ⟨f, Expr.render_literal.mpr ⟨hroom, hf⟩⟩
  | property path =>
    have hpath : ∀ t ∈ (X.scope (.root type dialect limit)).entityType,
        ∃ text, t.serverPath path "/" = .ok text := by
      rw [X.scope_entityType]
      exact h.path X path he
    obtain ⟨text, htext⟩ := Expr.pathText_eq_ok_iff.mpr hpath
    exact ⟨_, Expr.render_property.mpr ⟨hroom, text, htext, rfl⟩⟩
  | function name args =>
    obtain ⟨texts, htexts⟩ := render_args args [] he
    exact ⟨_, Expr.render_function.mpr ⟨hroom, texts, htexts, rfl⟩⟩

/-- Those arguments that are left, behind those already rendered. -/
theorem render_args (es before : List Expr) {X : Place} {name : String}
    (he : p = X.fill (.function name (before ++ es))) :
    ∃ texts, Expr.renderArgs es (X.scope (.root type dialect limit)).deeper = .ok texts := by
  cases es with
  | nil => exact ⟨[], rfl⟩
  | cons e es =>
    have hhead : p = (X.push ⟨name, before, es⟩).fill e := by rw [he, X.fill_push, Call.fill]
    obtain ⟨f, hf⟩ := render_expr e hhead
    have htail : p = X.fill (.function name (before ++ [e] ++ es)) := by
      rw [he, List.append_assoc, List.singleton_append]
    obtain ⟨rest, hrest⟩ := render_args es (before ++ [e]) htail
    rw [X.scope_push] at hf
    cases f with
    | text text => exact ⟨_, Expr.renderArgs_cons.mpr ⟨text, rest, hf, hrest, rfl⟩⟩
    | list items =>
      -- a list literal would stand inside a call
      obtain ⟨declared, values, rfl⟩ := Expr.eq_literal_of_render_list hf
      obtain ⟨hcalls, -⟩ := h.list_place _ declared values hhead
      simp [Place.push] at hcalls

end

/-- An operand that may not be a list has a text. -/
theorem render_text {C : Context} {s : Slot} {e : Expr} (he : p = C.fill (s.fill e))
    (hs : s.takesList = false) :
    ∃ text, e.render (C.scope (.root type dialect limit)).deeper = .ok (.text text) := by
  have hplace : p = (Place.mk C s []).fill e := he
  obtain ⟨f, hf⟩ := h.render_expr dialect e hplace
  cases f with
  | text text => exact ⟨text, hf⟩
  | list items =>
    obtain ⟨declared, values, rfl⟩ := Expr.eq_literal_of_render_list hf
    obtain ⟨-, left, hslot⟩ := h.list_place _ declared values hplace
    change s = _ at hslot
    rw [hslot] at hs
    cases hs

theorem render_binary {C : Context} {op : BinaryOp} {left right : Expr}
    (hq : p = C.fill (.binary op left right)) :
    ∃ t, (binary op left right).render (C.scope (.root type dialect limit)) = .ok t := by
  have hroom := h.room_pos dialect hq
  obtain ⟨l, hl⟩ := h.render_text dialect (s := .leftOperand op right) hq rfl
  by_cases hop : op = .isIn
  · subst hop
    obtain ⟨declared, values, rfl⟩ := h.membership C left right hq
    have hplace : p = (Place.mk C (.rightOperand .isIn left) []).fill
        (.literal declared (.list values)) := hq
    obtain ⟨f, hf⟩ := h.render_expr dialect _ hplace
    obtain ⟨items, -, rfl⟩ := Expr.literalFragment_list_eq_ok.mp (Expr.render_literal.mp hf).2
    exact ⟨_, render_membership.mpr ⟨hroom, l, items, hl, hf, rfl⟩⟩
  · obtain ⟨r, hr⟩ :=
      h.render_text dialect (s := .rightOperand op left) hq (decide_eq_false hop)
    exact ⟨_, (render_comparison hop).mpr ⟨hroom, l, r, hl, hr, rfl⟩⟩

end

mutual

theorem render_predicate (h : p.WellFormed type limit) (dialect : Dialect) (q : Predicate)
    {C : Context} (hq : p = C.fill q) :
    ∃ t, q.render (C.scope (.root type dialect limit)) = .ok t := by
  have hroom := h.room_pos dialect hq
  cases q with
  | passthrough text => exact ⟨_, render_passthrough.mpr ⟨hroom, rfl⟩⟩
  | not q =>
    have hchild : p = Context.fill (C ++ [.not]) q := by rw [hq, Context.fill_append]; rfl
    obtain ⟨s, hs⟩ := render_predicate h dialect q hchild
    rw [Context.scope_append] at hs
    exact ⟨_, render_not.mpr ⟨hroom, s, hs, rfl⟩⟩
  | binary op left right => exact h.render_binary dialect hq
  | junction op qs =>
    obtain ⟨texts, htexts⟩ := render_operands h dialect qs [] hq
    exact ⟨_, render_junction.mpr ⟨hroom, texts, htexts, rfl⟩⟩
  | lambda op source body =>
    obtain ⟨s, hs⟩ := h.render_text dialect (s := .lambdaSource op body) hq rfl
    have hchild : p = Context.fill (C ++ [.lambda op source]) body := by
      rw [hq, Context.fill_append]; rfl
    obtain ⟨b, hb⟩ := render_predicate h dialect body hchild
    rw [Context.scope_append] at hb
    exact ⟨_, render_lambda.mpr ⟨hroom, s, b, hs, hb, rfl⟩⟩

/-- Those operands that are left, behind those already rendered. -/
theorem render_operands (h : p.WellFormed type limit) (dialect : Dialect)
    (qs before : List Predicate) {C : Context} {op : Connective}
    (hq : p = C.fill (.junction op (before ++ qs))) :
    ∃ texts, renderOperands qs (C.scope (.root type dialect limit)).deeper = .ok texts := by
  cases qs with
  | nil => exact ⟨[], rfl⟩
  | cons q qs =>
    have hchild : p = Context.fill (C ++ [.junction op before qs]) q := by
      rw [hq, Context.fill_append]; rfl
    obtain ⟨text, htext⟩ := render_predicate h dialect q hchild
    have htail : p = C.fill (.junction op (before ++ [q] ++ qs)) := by
      rw [hq, List.append_assoc, List.singleton_append]
    obtain ⟨rest, hrest⟩ := render_operands h dialect qs (before ++ [q]) htail
    rw [Context.scope_append] at htext
    exact ⟨_, renderOperands_cons.mpr ⟨text, rest, htext, hrest, rfl⟩⟩

end

end WellFormed

/-- **Exactly the well-formed filters are rendered.** -/
theorem render_ok_iff_wellFormed (p : Predicate) (type : Option EntityType) (dialect : Dialect)
    (limit : Nat) :
    (∃ t, p.render (.root type dialect limit) = .ok t) ↔ p.WellFormed type limit := by
  constructor
  · rintro ⟨t, h⟩
    exact wellFormed_of_render h
  · intro h
    exact h.render_predicate dialect p (C := []) rfl

end Predicate

end ODataQuery
