import ODataQuery.Proofs.Filter.Rendering

/-!
# Places in a filter

A predicate inside a filter is reached through frames, one for each node above it;
an expression through the predicate that holds it, its slot there and the calls
around it. Whatever fills a place, the text around it and the scope in which it is
rendered are those of the place: they are computed here from the way down alone.
-/

namespace ODataQuery

/-- A node above a place, with all that stands beside the way down. -/
inductive Frame where
  | not
  | junction (op : Connective) (before after : List Predicate)
  | lambda (op : Quantifier) (source : Expr)

namespace Frame

def fill (p : Predicate) : Frame → Predicate
  | .not => .not p
  | .junction op before after => .junction op (before ++ p :: after)
  | .lambda op source => .lambda op source p

def isLambda : Frame → Bool
  | .lambda _ _ => true
  | _ => false

/-- The type of the paths below a node, from the type of those beside it. -/
def elementType (type : Option EntityType) : Frame → Option EntityType
  | .lambda _ (.property path) => type.bind (·.element? path)
  | .lambda _ _ => none
  | _ => type

/-- The scope in which the node renders what is below it. -/
def scope (σ : Scope) : Frame → Scope
  | .lambda _ source => σ.deeper.bind source
  | _ => σ.deeper

/-- What the node writes before and behind the text of what is below it. -/
def around (σ : Scope) : Frame → Except QueryError (String × String)
  | .not => do
    let _ ← σ.enter
    return ("not (", ")")
  | .junction op before after => do
    let inner ← σ.enter
    let texts ← Predicate.renderOperands before inner
    let rest ← Predicate.renderOperands after inner
    let word := " " ++ op.key ++ " "
    return (word.intercalate (texts ++ ["("]), word.intercalate (")" :: rest))
  | .lambda op source => do
    let inner ← σ.enter
    let text ← (← source.render inner).asText .lambdaSource
    return (inner.qualify text ++ "/" ++ op.key ++ "(" ++
      Scope.variableName inner.nextVariable ++ ": ", ")")

end Frame

/-- The frames above a place, outermost first. -/
abbrev Context := List Frame

namespace Context

def fill (C : Context) (p : Predicate) : Predicate :=
  C.foldr (fun f q => f.fill q) p

/-- How many lambdas bind a variable at the place. -/
def lambdas (C : Context) : Nat := C.countP Frame.isLambda

/-- The type against which paths at the place resolve. -/
def elementType (C : Context) (type : Option EntityType) : Option EntityType :=
  C.foldl Frame.elementType type

def scope (C : Context) (σ : Scope) : Scope := C.foldl Frame.scope σ

def around (σ : Scope) : Context → Except QueryError (String × String)
  | [] => .ok ("", "")
  | f :: C => do
    let outer ← f.around σ
    let inner ← around (f.scope σ) C
    return (outer.1 ++ inner.1, inner.2 ++ outer.2)

@[simp] theorem fill_nil (p : Predicate) : fill [] p = p := rfl

@[simp] theorem fill_cons (f : Frame) (C : Context) (p : Predicate) :
    fill (f :: C) p = f.fill (fill C p) := rfl

@[simp] theorem scope_nil (σ : Scope) : scope [] σ = σ := rfl

@[simp] theorem scope_cons (f : Frame) (C : Context) (σ : Scope) :
    scope (f :: C) σ = scope C (f.scope σ) := rfl

theorem fill_append (C D : Context) (p : Predicate) : fill (C ++ D) p = fill C (fill D p) :=
  List.foldr_append

theorem scope_append (C D : Context) (σ : Scope) : scope (C ++ D) σ = scope D (scope C σ) :=
  List.foldl_append

end Context

namespace Frame

variable (f : Frame) (σ : Scope)

theorem scope_entityType : (f.scope σ).entityType = f.elementType σ.entityType := by
  cases f with
  | lambda op source => cases source <;> rfl
  | not | junction => rfl

theorem scope_bound :
    (f.scope σ).bound = if f.isLambda then some (σ.bound.getD 0 + 1) else σ.bound := by
  cases f <;> rfl

theorem scope_depth : (f.scope σ).depth = σ.depth + 1 := by cases f <;> rfl

theorem scope_dialect : (f.scope σ).dialect = σ.dialect := by cases f <;> rfl

theorem scope_limit : (f.scope σ).limit = σ.limit := by cases f <;> rfl

end Frame

namespace Context

variable (C : Context) (σ : Scope)

theorem scope_entityType : (C.scope σ).entityType = C.elementType σ.entityType := by
  induction C generalizing σ with
  | nil => rfl
  | cons f C ih =>
    rw [scope_cons, ih, f.scope_entityType σ]
    rfl

theorem scope_bound :
    (C.scope σ).bound = if C.lambdas = 0 then σ.bound else some (σ.bound.getD 0 + C.lambdas) := by
  induction C generalizing σ with
  | nil => rfl
  | cons f C ih =>
    rw [scope_cons, ih, f.scope_bound σ]
    have hcount : lambdas (f :: C) = lambdas C + if f.isLambda then 1 else 0 := List.countP_cons
    rw [hcount]
    by_cases hf : f.isLambda
    · by_cases hC : lambdas C = 0
      · simp [hf, hC]
      · simp [hf, hC, Nat.add_assoc, Nat.add_comm 1]
    · simp [hf]

theorem scope_depth : (C.scope σ).depth = σ.depth + C.length := by
  induction C generalizing σ with
  | nil => rfl
  | cons f C ih =>
    rw [scope_cons, ih, f.scope_depth σ, List.length_cons]
    omega

theorem scope_dialect : (C.scope σ).dialect = σ.dialect := by
  induction C generalizing σ with
  | nil => rfl
  | cons f C ih => exact (ih (f.scope σ)).trans (f.scope_dialect σ)

theorem scope_limit : (C.scope σ).limit = σ.limit := by
  induction C generalizing σ with
  | nil => rfl
  | cons f C ih => exact (ih (f.scope σ)).trans (f.scope_limit σ)

theorem scope_eq : C.scope σ = ⟨C.elementType σ.entityType,
    if C.lambdas = 0 then σ.bound else some (σ.bound.getD 0 + C.lambdas), σ.dialect,
    σ.depth + C.length, σ.limit⟩ := by
  rw [← C.scope_entityType σ, ← C.scope_bound σ, ← C.scope_dialect σ, ← C.scope_depth σ,
    ← C.scope_limit σ]

theorem room_scope : (C.scope σ).room = σ.room - C.length := by
  simp only [Scope.room, scope_depth, scope_limit]
  omega

/-- A variable is bound for each lambda, and each lambda is an ancestor. -/
theorem lambdas_le_length : C.lambdas ≤ C.length := List.countP_le_length

end Context

/-- The text of one element of a joined list, and what the others make of it. -/
theorem intercalate_around (sep a s b : String) (xs ys : List String) :
    sep.intercalate (xs ++ (a ++ s ++ b) :: ys) =
      sep.intercalate (xs ++ [a]) ++ s ++ sep.intercalate (b :: ys) := by
  induction xs with
  | nil =>
    rw [List.nil_append, List.nil_append, String.intercalate_cons_append, String.intercalate_singleton]
  | cons x xs ih =>
    rw [List.cons_append, List.cons_append, String.intercalate_cons_of_ne_nil (by simp),
      String.intercalate_cons_of_ne_nil (by simp), ih]
    simp only [String.append_assoc]

namespace Predicate

theorem renderOperands_append {ps qs : List Predicate} {σ : Scope} {texts : List String} :
    renderOperands (ps ++ qs) σ = .ok texts ↔
      ∃ xs ys, renderOperands ps σ = .ok xs ∧ renderOperands qs σ = .ok ys ∧ texts = xs ++ ys := by
  induction ps generalizing texts with
  | nil => simp [renderOperands, eq_comm]
  | cons p ps ih =>
    simp only [List.cons_append, renderOperands_cons, ih]
    constructor
    · rintro ⟨text, _, hp, ⟨xs, ys, hxs, hys, rfl⟩, rfl⟩
      exact ⟨_, ys, ⟨text, xs, hp, hxs, rfl⟩, hys, rfl⟩
    · rintro ⟨_, ys, ⟨text, xs, hp, hxs, rfl⟩, hys, rfl⟩
      exact ⟨text, _, hp, ⟨xs, ys, hxs, hys, rfl⟩, rfl⟩

end Predicate

theorem Frame.render_fill (f : Frame) {p : Predicate} {σ : Scope} {t : String} :
    (f.fill p).render σ = .ok t ↔
      ∃ pre post s, f.around σ = .ok (pre, post) ∧ p.render (f.scope σ) = .ok s ∧
        t = pre ++ s ++ post := by
  cases f with
  | not =>
    simp only [fill, scope, around, Predicate.render_not, bind_eq_ok, Scope.enter_eq_ok, pure_eq_ok,
      Except.ok.injEq, Prod.mk.injEq]
    constructor
    · rintro ⟨hroom, s, hs, rfl⟩
      exact ⟨_, _, s, ⟨_, ⟨hroom, rfl⟩, rfl, rfl⟩, hs, rfl⟩
    · rintro ⟨_, _, s, ⟨_, ⟨hroom, rfl⟩, rfl, rfl⟩, hs, rfl⟩
      exact ⟨hroom, s, hs, rfl⟩
  | junction op before after =>
    simp only [fill, scope, around, Predicate.render_junction, Predicate.renderOperands_append,
      Predicate.renderOperands_cons, bind_eq_ok, Scope.enter_eq_ok, pure_eq_ok, Except.ok.injEq,
      Prod.mk.injEq]
    constructor
    · rintro ⟨hroom, _, ⟨texts, _, htexts, ⟨s, rest, hs, hrest, rfl⟩, rfl⟩, rfl⟩
      exact ⟨_, _, s, ⟨_, ⟨hroom, rfl⟩, texts, htexts, rest, hrest, rfl, rfl⟩, hs,
        intercalate_around _ "(" s ")" texts rest⟩
    · rintro ⟨_, _, s, ⟨_, ⟨hroom, rfl⟩, texts, htexts, rest, hrest, rfl, rfl⟩, hs, rfl⟩
      exact ⟨hroom, _, ⟨texts, _, htexts, ⟨s, rest, hs, hrest, rfl⟩, rfl⟩,
        (intercalate_around _ "(" s ")" texts rest).symm⟩
  | lambda op source =>
    simp only [fill, scope, around, Predicate.render_lambda, bind_eq_ok, Scope.enter_eq_ok,
      Fragment.asText_eq_ok, pure_eq_ok, Except.ok.injEq, Prod.mk.injEq]
    constructor
    · rintro ⟨hroom, text, s, htext, hs, rfl⟩
      exact ⟨_, _, s, ⟨_, ⟨hroom, rfl⟩, _, htext, text, rfl, rfl, rfl⟩, hs, rfl⟩
    · rintro ⟨_, _, s, ⟨_, ⟨hroom, rfl⟩, _, htext, text, rfl, rfl, rfl⟩, hs, rfl⟩
      exact ⟨hroom, text, s, htext, hs, rfl⟩

/-- A filling is rendered in the scope of its place, between texts that do not
depend on it. -/
theorem Context.render_fill (C : Context) {p : Predicate} {σ : Scope} {t : String} :
    (C.fill p).render σ = .ok t ↔
      ∃ pre post s, C.around σ = .ok (pre, post) ∧ p.render (C.scope σ) = .ok s ∧
        t = pre ++ s ++ post := by
  induction C generalizing σ t with
  | nil =>
    simp only [fill_nil, around, Except.ok.injEq, Prod.mk.injEq]
    constructor
    · intro h
      exact ⟨"", "", t, ⟨rfl, rfl⟩, h, by simp⟩
    · rintro ⟨_, _, s, ⟨rfl, rfl⟩, hs, rfl⟩
      simpa using hs
  | cons f C ih =>
    simp only [fill_cons, f.render_fill, ih, scope_cons, around, bind_eq_ok, pure_eq_ok,
      Except.ok.injEq, Prod.mk.injEq]
    constructor
    · rintro ⟨pre, post, _, houter, ⟨pre', post', s, hinner, hs, rfl⟩, rfl⟩
      refine ⟨_, _, s, ⟨(pre, post), houter, (pre', post'), hinner, rfl, rfl⟩, hs, ?_⟩
      simp only [String.append_assoc]
    · rintro ⟨_, _, s, ⟨⟨pre, post⟩, houter, ⟨pre', post'⟩, hinner, rfl, rfl⟩, hs, rfl⟩
      refine ⟨pre, post, _, houter, ⟨pre', post', s, hinner, hs, rfl⟩, ?_⟩
      simp only [String.append_assoc]

/-- Two texts that every filling stands between. Where one filling is rendered, all
are that can be rendered in the scope of the place. -/
theorem Context.render_between (C : Context) (σ : Scope) :
    ∃ pre post : String,
      (∀ p t, (C.fill p).render σ = .ok t →
        ∃ s, p.render (C.scope σ) = .ok s ∧ t = pre ++ s ++ post) ∧
      ∀ p t, (C.fill p).render σ = .ok t → ∀ q s, q.render (C.scope σ) = .ok s →
        (C.fill q).render σ = .ok (pre ++ s ++ post) := by
  cases haround : C.around σ with
  | ok texts =>
    refine ⟨texts.1, texts.2, ?_, ?_⟩
    · intro p t h
      obtain ⟨pre, post, s, htexts, hs, rfl⟩ := C.render_fill.mp h
      obtain rfl := Except.ok.inj (haround.symm.trans htexts)
      exact ⟨s, hs, rfl⟩
    · intro p t _ q s hs
      exact C.render_fill.mpr ⟨_, _, s, haround, hs, rfl⟩
  | error e =>
    -- something beside the way is refused, so nothing is rendered at all
    have hrefused (p : Predicate) (t : String) : (C.fill p).render σ ≠ .ok t := by
      intro h
      obtain ⟨pre, post, s, htexts, -, -⟩ := C.render_fill.mp h
      rw [haround] at htexts
      cases htexts
    exact ⟨"", "", fun p t h => absurd h (hrefused p t), fun p t h => absurd h (hrefused p t)⟩

/-- Where an expression stands in a predicate, with what stands beside it. -/
inductive Slot where
  | leftOperand (op : BinaryOp) (right : Expr)
  | rightOperand (op : BinaryOp) (left : Expr)
  | lambdaSource (op : Quantifier) (body : Predicate)

namespace Slot

def fill (e : Expr) : Slot → Predicate
  | .leftOperand op right => .binary op e right
  | .rightOperand op left => .binary op left e
  | .lambdaSource op body => .lambda op e body

/-- Only membership takes a list, behind its operator. -/
def takesList : Slot → Bool
  | .rightOperand op _ => op = .isIn
  | _ => false

theorem render_fill {s : Slot} {e : Expr} {σ : Scope} {t : String}
    (h : (s.fill e).render σ = .ok t) :
    ∃ f, e.render σ.deeper = .ok f ∧ ∀ items, f = .list items → s.takesList := by
  cases s with
  | leftOperand op right =>
    by_cases hop : op = .isIn
    · subst hop
      obtain ⟨-, l, _, hl, -⟩ := Predicate.render_membership.mp h
      exact ⟨_, hl, by simp⟩
    · obtain ⟨-, l, _, hl, -⟩ := (Predicate.render_comparison hop).mp h
      exact ⟨_, hl, by simp⟩
  | rightOperand op left =>
    by_cases hop : op = .isIn
    · subst hop
      obtain ⟨-, _, items, -, hr, -⟩ := Predicate.render_membership.mp h
      exact ⟨_, hr, fun _ _ => rfl⟩
    · obtain ⟨-, _, r, -, hr, -⟩ := (Predicate.render_comparison hop).mp h
      exact ⟨_, hr, by simp⟩
  | lambdaSource op body =>
    obtain ⟨-, text, _, htext, -⟩ := Predicate.render_lambda.mp h
    exact ⟨_, htext, by simp⟩

end Slot

/-- A call around an expression, with the arguments beside it. -/
structure Call where
  name : String
  before : List Expr
  after : List Expr

namespace Call

def fill (e : Expr) (c : Call) : Expr := .function c.name (c.before ++ e :: c.after)

/-- An expression inside calls, the outermost first. -/
def nest (calls : List Call) (e : Expr) : Expr := calls.foldr (fun c e => c.fill e) e

/-- What the call writes before and behind the text of the argument. -/
def around (c : Call) (σ : Scope) : Except QueryError (String × String) := do
  let inner ← σ.enter
  let texts ← Expr.renderArgs c.before inner
  let rest ← Expr.renderArgs c.after inner
  return (c.name ++ "(" ++ ",".intercalate (texts ++ [""]), ",".intercalate ("" :: rest) ++ ")")

def aroundAll (σ : Scope) : List Call → Except QueryError (String × String)
  | [] => .ok ("", "")
  | c :: cs => do
    let outer ← c.around σ
    let inner ← aroundAll σ.deeper cs
    return (outer.1 ++ inner.1, inner.2 ++ outer.2)

end Call

theorem Expr.renderArgs_append {es fs : List Expr} {σ : Scope} {texts : List String} :
    renderArgs (es ++ fs) σ = .ok texts ↔
      ∃ xs ys, renderArgs es σ = .ok xs ∧ renderArgs fs σ = .ok ys ∧ texts = xs ++ ys := by
  induction es generalizing texts with
  | nil => simp [renderArgs, eq_comm]
  | cons e es ih =>
    simp only [List.cons_append, renderArgs_cons, ih]
    constructor
    · rintro ⟨text, _, he, ⟨xs, ys, hxs, hys, rfl⟩, rfl⟩
      exact ⟨_, ys, ⟨text, xs, he, hxs, rfl⟩, hys, rfl⟩
    · rintro ⟨_, ys, ⟨text, xs, he, hxs, rfl⟩, hys, rfl⟩
      exact ⟨text, _, he, ⟨xs, ys, hxs, hys, rfl⟩, rfl⟩

/-- Some levels down, with nothing bound on the way. -/
def Scope.below (σ : Scope) (levels : Nat) : Scope := { σ with depth := σ.depth + levels }

namespace Scope

theorem below_deeper (σ : Scope) (n : Nat) : (σ.below n).deeper = σ.below (n + 1) := rfl

theorem deeper_below (σ : Scope) (n : Nat) : σ.deeper.below n = σ.below (n + 1) := by
  simp only [below, deeper, Nat.add_assoc, Nat.add_comm 1]

theorem room_below (σ : Scope) (n : Nat) : (σ.below n).room = σ.room - n := by
  simp only [room, below]
  omega

end Scope

namespace Call

theorem render_fill (c : Call) {e : Expr} {σ : Scope} {f : Fragment} :
    (c.fill e).render σ = .ok f ↔
      ∃ pre post s, c.around σ = .ok (pre, post) ∧ e.render σ.deeper = .ok (.text s) ∧
        f = .text (pre ++ s ++ post) := by
  have hjoin (texts rest : List String) (s : String) :
      c.name ++ "(" ++ ",".intercalate (texts ++ s :: rest) ++ ")" =
        c.name ++ "(" ++ ",".intercalate (texts ++ [""]) ++ s ++
          (",".intercalate ("" :: rest) ++ ")") := by
    have h := intercalate_around "," "" s "" texts rest
    rw [String.empty_append, String.append_empty] at h
    simp only [h, String.append_assoc]
  simp only [fill, around, Expr.render_function, Expr.renderArgs_append, Expr.renderArgs_cons,
    bind_eq_ok, Scope.enter_eq_ok, pure_eq_ok, Except.ok.injEq, Prod.mk.injEq]
  constructor
  · rintro ⟨hroom, _, ⟨texts, _, htexts, ⟨s, rest, hs, hrest, rfl⟩, rfl⟩, rfl⟩
    exact ⟨_, _, s, ⟨_, ⟨hroom, rfl⟩, texts, htexts, rest, hrest, rfl, rfl⟩, hs,
      congrArg Fragment.text (hjoin texts rest s)⟩
  · rintro ⟨_, _, s, ⟨_, ⟨hroom, rfl⟩, texts, htexts, rest, hrest, rfl, rfl⟩, hs, rfl⟩
    exact ⟨hroom, _, ⟨texts, _, htexts, ⟨s, rest, hs, hrest, rfl⟩, rfl⟩,
      congrArg Fragment.text (hjoin texts rest s).symm⟩

theorem render_nest {calls : List Call} {e : Expr} {σ : Scope} {t : String} :
    (nest calls e).render σ = .ok (.text t) ↔
      ∃ pre post s, aroundAll σ calls = .ok (pre, post) ∧
        e.render (σ.below calls.length) = .ok (.text s) ∧ t = pre ++ s ++ post := by
  induction calls generalizing σ t with
  | nil =>
    simp only [nest, List.foldr_nil, aroundAll, Except.ok.injEq, Prod.mk.injEq]
    constructor
    · intro h
      exact ⟨"", "", t, ⟨rfl, rfl⟩, h, by simp⟩
    · rintro ⟨_, _, s, ⟨rfl, rfl⟩, hs, rfl⟩
      simpa using show e.render σ = .ok (.text s) from hs
  | cons c calls ih =>
    have hnest : nest (c :: calls) e = c.fill (nest calls e) := rfl
    simp only [hnest, render_fill, ih, Scope.deeper_below, aroundAll, bind_eq_ok, pure_eq_ok,
      Except.ok.injEq, Prod.mk.injEq, Fragment.text.injEq, List.length_cons]
    constructor
    · rintro ⟨pre, post, _, houter, ⟨pre', post', s, hinner, hs, rfl⟩, rfl⟩
      refine ⟨_, _, s, ⟨(pre, post), houter, (pre', post'), hinner, rfl, rfl⟩, hs, ?_⟩
      simp only [String.append_assoc]
    · rintro ⟨_, _, s, ⟨⟨pre, post⟩, houter, ⟨pre', post'⟩, hinner, rfl, rfl⟩, hs, rfl⟩
      refine ⟨pre, post, _, houter, ⟨pre', post', s, hinner, hs, rfl⟩, ?_⟩
      simp only [String.append_assoc]

/-- What is inside a call is no path by itself. -/
theorem eq_nil_of_nest_property {calls : List Call} {e : Expr} {path : PropertyPath}
    (h : nest calls e = .property path) : calls = [] := by
  cases calls with
  | nil => rfl
  | cons c calls => cases h

/-- A call has a text, whatever its arguments are. -/
theorem eq_nil_of_render_list {calls : List Call} {e : Expr} {σ : Scope} {items : List String}
    (h : (nest calls e).render σ = .ok (.list items)) : calls = [] := by
  cases calls with
  | nil => rfl
  | cons c calls =>
    obtain ⟨_, _, hliteral⟩ := Expr.eq_literal_of_render_list h
    cases hliteral

end Call

/-- A place for an expression: the predicate that holds it, its slot there, and the
calls around it, outermost first. -/
structure Place where
  context : Context
  slot : Slot
  calls : List Call

namespace Place

def fill (X : Place) (e : Expr) : Predicate := X.context.fill (X.slot.fill (Call.nest X.calls e))

/-- How many nodes lie above the place. -/
def ancestors (X : Place) : Nat := X.context.length + 1 + X.calls.length

def scope (X : Place) (σ : Scope) : Scope := (X.context.scope σ).deeper.below X.calls.length

/-- The place of an argument of a call at the place. -/
def push (X : Place) (c : Call) : Place := { X with calls := X.calls ++ [c] }

theorem fill_push (X : Place) (c : Call) (e : Expr) : (X.push c).fill e = X.fill (c.fill e) := by
  simp only [fill, push, Call.nest, List.foldr_append, List.foldr_cons, List.foldr_nil]

theorem scope_push (X : Place) (c : Call) (σ : Scope) :
    (X.push c).scope σ = (X.scope σ).deeper := by
  simp only [scope, push, List.length_append, List.length_cons, List.length_nil, Scope.below_deeper]

theorem scope_entityType (X : Place) (σ : Scope) :
    (X.scope σ).entityType = X.context.elementType σ.entityType := X.context.scope_entityType σ

theorem room_scope (X : Place) (σ : Scope) : (X.scope σ).room = σ.room - X.ancestors := by
  simp only [scope, ancestors, Scope.room_below, Scope.room_deeper, Context.room_scope]
  omega

theorem render_fill {X : Place} {e : Expr} {σ : Scope} {t : String}
    (h : (X.fill e).render σ = .ok t) :
    ∃ f, e.render (X.scope σ) = .ok f ∧
      ∀ items, f = .list items → X.calls = [] ∧ X.slot.takesList := by
  obtain ⟨_, _, s, -, hs, -⟩ := X.context.render_fill.mp h
  obtain ⟨f, hf, hlist⟩ := Slot.render_fill hs
  cases f with
  | text t =>
    obtain ⟨_, _, s, -, hs, -⟩ := Call.render_nest.mp hf
    exact ⟨_, hs, by simp⟩
  | list items =>
    have hcalls := Call.eq_nil_of_render_list hf
    refine ⟨.list items, ?_, fun _ _ => ⟨hcalls, hlist items rfl⟩⟩
    rw [hcalls] at hf
    rw [scope, hcalls]
    exact hf

end Place

end ODataQuery
