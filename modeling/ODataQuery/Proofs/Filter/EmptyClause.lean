import ODataQuery.Proofs.Filter.Place

namespace ODataQuery

namespace Predicate

mutual

/-- A filter without raw text, each of its connectives with an operand. -/
def isBuilt : Predicate → Bool
  | .passthrough _ => false
  | .not p => p.isBuilt
  | .binary _ _ _ => true
  | .junction _ ps => !ps.isEmpty && allBuilt ps
  | .lambda _ _ body => body.isBuilt

def allBuilt : List Predicate → Bool
  | [] => true
  | p :: ps => p.isBuilt && allBuilt ps

end

def IsEmptyMembership (p : Predicate) : Prop :=
  ∃ left declared, p = .binary .isIn left (.literal declared (.list []))

theorem allBuilt_append (ps qs : List Predicate) :
    allBuilt (ps ++ qs) = (allBuilt ps && allBuilt qs) := by
  induction ps with
  | nil => rfl
  | cons p ps ih => rw [List.cons_append, allBuilt, allBuilt, ih, Bool.and_assoc]

end Predicate

theorem Frame.isBuilt_of_fill (f : Frame) {p : Predicate} (h : (f.fill p).isBuilt) : p.isBuilt := by
  cases f with
  | not => exact h
  | junction op before after =>
    rw [fill, Predicate.isBuilt, Predicate.allBuilt_append, Predicate.allBuilt] at h
    simp only [Bool.and_eq_true] at h
    exact h.2.2.1
  | lambda op source => exact h

theorem Context.isBuilt_of_fill (C : Context) {p : Predicate} (h : (C.fill p).isBuilt) :
    p.isBuilt := by
  induction C with
  | nil => exact h
  | cons f C ih => exact ih (f.isBuilt_of_fill h)

namespace Predicate

theorem membershipText_eq_empty {dialect : Dialect} {left : String} {items : List String} :
    membershipText dialect left items = "" ↔ items = [] := by
  cases items with
  | nil => simp [membershipText]
  | cons item items =>
    simp only [membershipText, List.isEmpty_cons, Bool.false_eq_true, ↓reduceIte, reduceCtorEq,
      iff_false]
    split
    · simp
    · rw [List.map_cons]
      cases items with
      | nil => simp
      | cons next items => simp

theorem comparisonText_ne_empty (dialect : Dialect) (op : BinaryOp) (left right : String) :
    comparisonText dialect op left right ≠ "" := by
  unfold comparisonText
  dsimp only
  split
  · split
    · simp
    · simp
  · simp

theorem joined_ne_empty (sep text : String) (rest : List String) (h : text ≠ "") :
    sep.intercalate (text :: rest) ≠ "" := by
  cases rest with
  | nil => simpa using h
  | cons next rest => simp [h]

variable {p : Predicate} {σ : Scope} {t : String}

/-- **Only a membership in an empty list is written as nothing.** -/
theorem eq_empty_iff_of_render (hp : p.isBuilt) (h : p.render σ = .ok t) :
    t = "" ↔ p.IsEmptyMembership := by
  cases p with
  | passthrough text => cases hp
  | not p =>
    obtain ⟨-, s, -, rfl⟩ := render_not.mp h
    simp [IsEmptyMembership]
  | binary op left right =>
    by_cases hop : op = .isIn
    · subst hop
      obtain ⟨-, l, items, -, hr, rfl⟩ := render_membership.mp h
      rw [membershipText_eq_empty]
      constructor
      · rintro rfl
        obtain ⟨declared, values, rfl⟩ := Expr.eq_literal_of_render_list hr
        obtain rfl := List.eq_nil_of_length_eq_zero (Expr.length_of_render_list hr).symm
        exact ⟨left, declared, rfl⟩
      · rintro ⟨left', declared, heq⟩
        obtain ⟨-, -, rfl⟩ := Predicate.binary.inj heq
        obtain ⟨texts, htexts, hitems⟩ :=
          Expr.literalFragment_list_eq_ok.mp (Expr.render_literal.mp hr).2
        obtain rfl := Fragment.list.inj hitems
        exact (Except.ok.inj htexts).symm
    · obtain ⟨-, l, r, -, -, rfl⟩ := (render_comparison hop).mp h
      refine iff_of_false (comparisonText_ne_empty σ.dialect op (σ.qualify l) r) ?_
      rintro ⟨left', declared, heq⟩
      exact hop (Predicate.binary.inj heq).1
  | junction op ps =>
    obtain ⟨-, texts, htexts, rfl⟩ := render_junction.mp h
    cases ps with
    | nil => cases hp
    | cons p ps =>
      obtain ⟨text, rest, -, -, rfl⟩ := renderOperands_cons.mp htexts
      refine iff_of_false (joined_ne_empty _ _ rest (by simp)) ?_
      rintro ⟨left, declared, heq⟩
      cases heq
  | lambda op source body =>
    obtain ⟨-, s, b, -, -, rfl⟩ := render_lambda.mp h
    simp [IsEmptyMembership]

end Predicate

namespace Frame

/-- What stands right before a clause. Behind it stands a closing parenthesis. -/
def opening : Frame → String
  | .lambda _ _ => ": "
  | _ => "("

theorem around_eq_ok {f : Frame} {σ : Scope} {pre post : String}
    (h : f.around σ = .ok (pre, post)) :
    ∃ before behind, pre = before ++ f.opening ∧ post = ")" ++ behind := by
  cases f with
  | not =>
    simp only [around, bind_eq_ok, pure_eq_ok, Except.ok.injEq, Prod.mk.injEq] at h
    obtain ⟨_, -, rfl, rfl⟩ := h
    exact ⟨"not ", "", rfl, rfl⟩
  | junction op before after =>
    simp only [around, bind_eq_ok, pure_eq_ok, Except.ok.injEq, Prod.mk.injEq] at h
    obtain ⟨_, -, texts, -, rest, -, rfl, rfl⟩ := h
    have hclosing : (" " ++ op.key ++ " ").intercalate (")" :: rest) =
        ")" ++ (" " ++ op.key ++ " ").intercalate ("" :: rest) := by
      rw [← String.intercalate_cons_append, String.append_empty]
    cases texts with
    | nil => exact ⟨"", _, rfl, hclosing⟩
    | cons text texts =>
      refine ⟨(" " ++ op.key ++ " ").intercalate (text :: texts) ++ (" " ++ op.key ++ " "), _, ?_,
        hclosing⟩
      rw [String.intercalate_append_of_ne_nil (by simp) (by simp), String.intercalate_singleton]
      rfl
  | lambda op source =>
    simp only [around, bind_eq_ok, pure_eq_ok, Except.ok.injEq, Prod.mk.injEq] at h
    obtain ⟨σ', -, _, -, text, -, rfl, rfl⟩ := h
    exact ⟨_, "", rfl, rfl⟩

end Frame

namespace Predicate

/-- **A clause is empty exactly where a membership in an empty list stands.** In a filter
without raw text and without empty connectives every operand and every body is written
between its opening and a closing parenthesis, and there is text between them unless the
operand or body is itself a membership in an empty list. -/
theorem clause_eq_empty_iff {p : Predicate} (hp : p.isBuilt) {σ : Scope} {t : String}
    (ht : p.render σ = .ok t) (C : Context) (f : Frame) (q : Predicate)
    (hq : p = C.fill (f.fill q)) :
    ∃ before behind s, q.render (f.scope (C.scope σ)) = .ok s ∧
      t = before ++ f.opening ++ s ++ ")" ++ behind ∧ (s = "" ↔ q.IsEmptyMembership) := by
  subst hq
  have hbuilt : q.isBuilt := f.isBuilt_of_fill (C.isBuilt_of_fill hp)
  obtain ⟨pre, post, u, -, hu, rfl⟩ := C.render_fill.mp ht
  obtain ⟨pre', post', s, haround, hs, rfl⟩ := f.render_fill.mp hu
  obtain ⟨before, behind, rfl, rfl⟩ := Frame.around_eq_ok haround
  refine ⟨pre ++ before, behind ++ post, s, hs, ?_, eq_empty_iff_of_render hbuilt hs⟩
  simp only [String.append_assoc]

def status : Expr := .property ⟨["status"]⟩

/-- A status among none. -/
def noStatus : Predicate := .binary .isIn status (.literal .string (.list []))

/-- A negated membership beside a lambda over one. -/
def unwritten : Predicate :=
  .junction .or [.not noStatus, .lambda .any (.property ⟨["orders"]⟩) noStatus]

theorem clause_of_unwritten : unwritten.isBuilt ∧
    unwritten.render (.root none .v4 9) = .ok "(not ()) or (orders/any(x1: ))" ∧
    ∃ before behind s, noStatus.render (Scope.root none .v4 9).deeper.deeper = .ok s ∧
      "(not ()) or (orders/any(x1: ))" = before ++ "(" ++ s ++ ")" ++ behind ∧
      (s = "" ↔ noStatus.IsEmptyMembership) := by
  have hrender : unwritten.render (.root none .v4 9) = .ok "(not ()) or (orders/any(x1: ))" := by
    rfl
  exact ⟨by rfl, hrender, clause_eq_empty_iff (by rfl) hrender
    [.junction .or [] [.lambda .any (.property ⟨["orders"]⟩) noStatus]] .not noStatus rfl⟩

/-- Three clauses without text, in either dialect. -/
theorem empty_clauses :
    (junction .and [.binary .eq status (.literal .int32 (.int 1)), noStatus]).isBuilt ∧
    unwritten.isBuilt ∧ ∀ dialect : Dialect,
      (junction .and [.binary .eq status (.literal .int32 (.int 1)), noStatus]).render
        (.root none dialect 9) = .ok "(status eq 1) and ()" ∧
      unwritten.render (.root none dialect 9) = .ok "(not ()) or (orders/any(x1: ))" ∧
      noStatus.render (Frame.not.scope (.root none dialect 9)) = .ok "" := by
  refine ⟨by rfl, by rfl, fun dialect => ?_⟩
  cases dialect with
  | v4 => exact ⟨by rfl, by rfl, by rfl⟩
  | v401 => exact ⟨by rfl, by rfl, by rfl⟩

end Predicate

end ODataQuery
