import ODataQuery.Filter.Render
import ODataQuery.Proofs.Outcome

/-!
# What a successful rendering consists of

One inversion for each kind of node: the scope was entered, the parts rendered,
and the text is put together from theirs. Later proofs use these and do not open
the renderer.
-/

namespace ODataQuery

namespace Scope

/-- How many levels the limit still admits. -/
def room (σ : Scope) : Nat := σ.limit - σ.depth

theorem room_root (type : Option EntityType) (dialect : Dialect) (limit : Nat) :
    (root type dialect limit).room = limit := Nat.sub_zero limit

/-- The scope one level down. -/
def deeper (σ : Scope) : Scope := { σ with depth := σ.depth + 1 }

theorem enter_of_room {σ : Scope} (h : 0 < σ.room) : σ.enter = .ok σ.deeper := by
  unfold room at h
  rw [enter, if_neg (by omega)]
  rfl

theorem enter_of_no_room {σ : Scope} (h : ¬0 < σ.room) :
    σ.enter = .error (.depthExceeded σ.limit) := by
  unfold room at h
  rw [enter, if_pos (by omega)]

theorem enter_eq_ok {σ inner : Scope} : σ.enter = .ok inner ↔ 0 < σ.room ∧ inner = σ.deeper := by
  by_cases h : 0 < σ.room
  · simp [enter_of_room h, h, eq_comm]
  · simp [enter_of_no_room h, h]

theorem room_deeper (σ : Scope) : σ.deeper.room = σ.room - 1 := by
  simp only [room, deeper]
  omega

end Scope

namespace Fragment

theorem asText_eq_ok {f : Fragment} {position : Position} {s : String} :
    f.asText position = .ok s ↔ f = .text s := by
  cases f <;> simp [asText]

theorem asList_eq_ok {f : Fragment} {items : List String} :
    f.asList = .ok items ↔ f = .list items := by
  cases f <;> simp [asList]

end Fragment

namespace DataType

/-- A list has no literal in any type. -/
theorem literal_list (type : DataType) (items : List Value) :
    ∃ e, type.literal (.list items) = .error e := by
  unfold literal
  split
  · exact ⟨_, rfl⟩
  · exact ⟨_, rfl⟩

end DataType

namespace Expr

variable {σ : Scope} {f : Fragment}

theorem render_literal {type : DataType} {value : Value} :
    (literal type value).render σ = .ok f ↔ 0 < σ.room ∧ literalFragment type value = .ok f := by
  simp [render, bind_eq_ok, Scope.enter_eq_ok]

theorem literalFragment_scalar_eq_ok {declared : DataType} {v : Value}
    (hv : ∀ items, v ≠ .list items) :
    literalFragment declared v = .ok f ↔ ∃ text, declared.literal v = .ok text ∧ f = .text text := by
  cases v with
  | list items => exact absurd rfl (hv items)
  | null | bool | int | float | string | timestamp =>
    simp [literalFragment, bind_eq_ok, eq_comm (a := f)]

theorem literalFragment_list_eq_ok {declared : DataType} {items : List Value} :
    literalFragment declared (.list items) = .ok f ↔
      ∃ texts, items.mapM declared.literal = .ok texts ∧ f = .list texts := by
  simp [literalFragment, bind_eq_ok, eq_comm (a := f)]

theorem render_property {path : PropertyPath} :
    (property path).render σ = .ok f ↔
      0 < σ.room ∧ ∃ text, pathText σ path = .ok text ∧ f = .text text := by
  simp only [render, bind_eq_ok, Scope.enter_eq_ok, pure_eq_ok, Except.ok.injEq]
  constructor
  · rintro ⟨_, ⟨hroom, rfl⟩, text, htext, rfl⟩
    exact ⟨hroom, text, htext, rfl⟩
  · rintro ⟨hroom, text, htext, rfl⟩
    exact ⟨_, ⟨hroom, rfl⟩, text, htext, rfl⟩

theorem render_function {name : String} {args : List Expr} :
    (function name args).render σ = .ok f ↔
      0 < σ.room ∧ ∃ texts, renderArgs args σ.deeper = .ok texts ∧
        f = .text (name ++ "(" ++ ",".intercalate texts ++ ")") := by
  simp only [render, bind_eq_ok, Scope.enter_eq_ok, pure_eq_ok, Except.ok.injEq]
  constructor
  · rintro ⟨_, ⟨hroom, rfl⟩, texts, htexts, rfl⟩
    exact ⟨hroom, texts, htexts, rfl⟩
  · rintro ⟨hroom, texts, htexts, rfl⟩
    exact ⟨_, ⟨hroom, rfl⟩, texts, htexts, rfl⟩

theorem renderArgs_cons {e : Expr} {es : List Expr} {texts : List String} :
    renderArgs (e :: es) σ = .ok texts ↔
      ∃ text rest, e.render σ = .ok (.text text) ∧ renderArgs es σ = .ok rest ∧
        texts = text :: rest := by
  simp only [renderArgs, bind_eq_ok, Fragment.asText_eq_ok, pure_eq_ok, Except.ok.injEq]
  constructor
  · rintro ⟨_, he, text, rfl, rest, hrest, rfl⟩
    exact ⟨text, rest, he, hrest, rfl⟩
  · rintro ⟨text, rest, he, hrest, rfl⟩
    exact ⟨_, he, text, rfl, rest, hrest, rfl⟩

/-- A rendered expression used up at least its own level. -/
theorem room_pos_of_render {e : Expr} (h : e.render σ = .ok f) : 0 < σ.room := by
  cases e with
  | literal type value => exact (render_literal.mp h).1
  | property path => exact (render_property.mp h).1
  | function name args => exact (render_function.mp h).1

/-- Only a list literal gives a list. -/
theorem eq_literal_of_render_list {e : Expr} {items : List String}
    (h : e.render σ = .ok (.list items)) : ∃ type values, e = .literal type (.list values) := by
  cases e with
  | literal type value =>
    cases value with
    | list values => exact ⟨type, values, rfl⟩
    | null | bool | int | float | string | timestamp =>
      obtain ⟨-, h⟩ := render_literal.mp h
      simp [literalFragment, bind_eq_ok] at h
  | property path =>
    obtain ⟨-, text, -, h⟩ := render_property.mp h
    cases h
  | function name args =>
    obtain ⟨-, texts, -, h⟩ := render_function.mp h
    cases h

theorem length_of_render_list {declared : DataType} {values : List Value} {items : List String}
    (h : (literal declared (.list values)).render σ = .ok (.list items)) :
    items.length = values.length := by
  obtain ⟨texts, htexts, hitems⟩ := literalFragment_list_eq_ok.mp (render_literal.mp h).2
  obtain rfl := Fragment.list.inj hitems
  exact length_of_mapM htexts

mutual

/-- An expression reads the type in scope and needs only enough levels. -/
theorem render_of_room (e : Expr) {σ σ' : Scope} {f : Fragment}
    (htype : σ'.entityType = σ.entityType) (hroom : σ.room ≤ σ'.room) (h : e.render σ = .ok f) :
    e.render σ' = .ok f := by
  cases e with
  | literal type value =>
    rw [render_literal] at h ⊢
    exact ⟨by omega, h.2⟩
  | property path =>
    rw [render_property, pathText] at h ⊢
    rw [htype]
    exact ⟨by omega, h.2⟩
  | function name args =>
    rw [render_function] at h ⊢
    obtain ⟨hpos, texts, htexts, rfl⟩ := h
    have hdeeper : σ.deeper.room ≤ σ'.deeper.room := by
      simp only [Scope.room_deeper]
      omega
    have htype' : σ'.deeper.entityType = σ.deeper.entityType := htype
    exact ⟨by omega, texts, renderArgs_of_room args htype' hdeeper htexts, rfl⟩

theorem renderArgs_of_room (es : List Expr) {σ σ' : Scope} {texts : List String}
    (htype : σ'.entityType = σ.entityType) (hroom : σ.room ≤ σ'.room)
    (h : renderArgs es σ = .ok texts) : renderArgs es σ' = .ok texts := by
  cases es with
  | nil => exact h
  | cons e es =>
    rw [renderArgs_cons] at h ⊢
    obtain ⟨text, rest, he, hes, rfl⟩ := h
    exact ⟨text, rest, render_of_room e htype hroom he, renderArgs_of_room es htype hroom hes, rfl⟩

end

end Expr

namespace Predicate

variable {σ : Scope} {t : String}

theorem render_passthrough {text : String} :
    (passthrough text).render σ = .ok t ↔ 0 < σ.room ∧ t = text := by
  simp [render, bind_eq_ok, Scope.enter_eq_ok, eq_comm (a := t)]

theorem render_not {p : Predicate} :
    (not p).render σ = .ok t ↔
      0 < σ.room ∧ ∃ s, p.render σ.deeper = .ok s ∧ t = "not (" ++ s ++ ")" := by
  simp [render, bind_eq_ok, Scope.enter_eq_ok, eq_comm (a := t), and_assoc]

theorem render_membership {left right : Expr} :
    (binary .isIn left right).render σ = .ok t ↔
      0 < σ.room ∧ ∃ l items, left.render σ.deeper = .ok (.text l) ∧
        right.render σ.deeper = .ok (.list items) ∧
        t = membershipText σ.dialect (σ.qualify l) items := by
  simp only [render, renderBinary, bind_eq_ok, Scope.enter_eq_ok, Fragment.asText_eq_ok, ↓reduceIte,
    Fragment.asList_eq_ok, pure_eq_ok, Except.ok.injEq]
  constructor
  · rintro ⟨_, ⟨hroom, rfl⟩, _, hl, l, rfl, _, hr, items, rfl, rfl⟩
    exact ⟨hroom, l, items, hl, hr, rfl⟩
  · rintro ⟨hroom, l, items, hl, hr, rfl⟩
    exact ⟨_, ⟨hroom, rfl⟩, _, hl, l, rfl, _, hr, items, rfl, rfl⟩

theorem render_comparison {op : BinaryOp} {left right : Expr} (h : op ≠ .isIn) :
    (binary op left right).render σ = .ok t ↔
      0 < σ.room ∧ ∃ l r, left.render σ.deeper = .ok (.text l) ∧
        right.render σ.deeper = .ok (.text r) ∧
        t = comparisonText σ.dialect op (σ.qualify l) r := by
  simp only [render, renderBinary, bind_eq_ok, Scope.enter_eq_ok, Fragment.asText_eq_ok, if_neg h,
    pure_eq_ok, Except.ok.injEq]
  constructor
  · rintro ⟨_, ⟨hroom, rfl⟩, _, hl, l, rfl, _, hr, r, rfl, rfl⟩
    exact ⟨hroom, l, r, hl, hr, rfl⟩
  · rintro ⟨hroom, l, r, hl, hr, rfl⟩
    exact ⟨_, ⟨hroom, rfl⟩, _, hl, l, rfl, _, hr, r, rfl, rfl⟩

theorem render_junction {op : Connective} {ps : List Predicate} :
    (junction op ps).render σ = .ok t ↔
      0 < σ.room ∧ ∃ texts, renderOperands ps σ.deeper = .ok texts ∧
        t = (" " ++ op.key ++ " ").intercalate texts := by
  simp [render, bind_eq_ok, Scope.enter_eq_ok, eq_comm (a := t), and_assoc]

theorem renderOperands_cons {p : Predicate} {ps : List Predicate} {texts : List String} :
    renderOperands (p :: ps) σ = .ok texts ↔
      ∃ text rest, p.render σ = .ok text ∧ renderOperands ps σ = .ok rest ∧
        texts = ("(" ++ text ++ ")") :: rest := by
  simp [renderOperands, bind_eq_ok, eq_comm (a := texts)]

theorem render_lambda {op : Quantifier} {source : Expr} {body : Predicate} :
    (lambda op source body).render σ = .ok t ↔
      0 < σ.room ∧ ∃ s b, source.render σ.deeper = .ok (.text s) ∧
        body.render (σ.deeper.bind source) = .ok b ∧
        t = σ.qualify s ++ "/" ++ op.key ++ "(" ++ Scope.variableName σ.nextVariable ++ ": " ++
          b ++ ")" := by
  simp only [render, bind_eq_ok, Scope.enter_eq_ok, Fragment.asText_eq_ok, pure_eq_ok,
    Except.ok.injEq]
  constructor
  · rintro ⟨_, ⟨hroom, rfl⟩, _, hsource, s, rfl, b, hb, rfl⟩
    exact ⟨hroom, s, b, hsource, hb, rfl⟩
  · rintro ⟨hroom, s, b, hsource, hb, rfl⟩
    exact ⟨_, ⟨hroom, rfl⟩, _, hsource, s, rfl, b, hb, rfl⟩

theorem room_pos_of_render {p : Predicate} (h : p.render σ = .ok t) : 0 < σ.room := by
  cases p with
  | passthrough text => exact (render_passthrough.mp h).1
  | not p => exact (render_not.mp h).1
  | binary op left right =>
    by_cases hop : op = .isIn
    · subst hop
      exact (render_membership.mp h).1
    · exact ((render_comparison hop).mp h).1
  | junction op ps => exact (render_junction.mp h).1
  | lambda op source body => exact (render_lambda.mp h).1

end Predicate

end ODataQuery
