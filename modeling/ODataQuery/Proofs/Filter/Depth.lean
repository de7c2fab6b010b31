import ODataQuery.Proofs.Filter.Rendering
import ODataQuery.Query.Compile

/-!
# The depth of a filter

The depth of a tree is the number of nodes on its longest way down. A tree that renders at
all needs its depth in levels and nothing else of the limit: where the limit leaves so many it
renders to the same text, and where it does not the limit is what is reported.
-/

namespace ODataQuery

namespace Expr

mutual

/-- The number of nodes on the longest way down. -/
def depth : Expr → Nat
  | .literal _ _ => 1
  | .property _ => 1
  | .function _ args => depthArgs args + 1

def depthArgs : List Expr → Nat
  | [] => 0
  | e :: es => max e.depth (depthArgs es)

end

end Expr

namespace Predicate

mutual

/-- The number of nodes on the longest way down. -/
def depth : Predicate → Nat
  | .passthrough _ => 1
  | .not operand => operand.depth + 1
  | .binary _ left right => max left.depth right.depth + 1
  | .junction _ operands => depthOperands operands + 1
  | .lambda _ source body => max source.depth body.depth + 1

def depthOperands : List Predicate → Nat
  | [] => 0
  | p :: ps => max p.depth (depthOperands ps)

end

end Predicate

namespace Scope

variable {α β : Type} {σ : Scope}

/-- The same scope under another limit. -/
def within (σ : Scope) (limit : Nat) : Scope := { σ with limit := limit }

/-- A result that is had where so many levels are left. -/
def grant (σ : Scope) (levels : Nat) (a : α) : Except QueryError α :=
  if levels ≤ σ.room then .ok a else .error (.depthExceeded σ.limit)

theorem grant_zero (a : α) : σ.grant 0 a = .ok a := if_pos (Nat.zero_le _)

theorem le_room_of_grant {levels : Nat} {a b : α} (h : σ.grant levels a = .ok b) :
    levels ≤ σ.room := by
  unfold grant at h
  split at h
  · assumption
  · cases h

/-- To enter a scope takes one level more than what is done inside. -/
theorem enter_bind_eq_grant {f : Scope → Except QueryError α} {levels : Nat} {a : α}
    (h : f σ.deeper = σ.deeper.grant levels a) : (σ.enter >>= f) = σ.grant (levels + 1) a := by
  by_cases hroom : 0 < σ.room
  · rw [enter_of_room hroom, ok_bind, h, grant, grant, room_deeper]
    have hlevels : levels ≤ σ.room - 1 ↔ levels + 1 ≤ σ.room := by omega
    simp only [hlevels]
    rfl
  · have hlevels : ¬levels + 1 ≤ σ.room := by omega
    rw [enter_of_no_room hroom, error_bind, grant, if_neg hlevels]

/-- Two results one after the other take as many levels as the deeper of them. -/
theorem grant_bind_eq_grant {f : α → Except QueryError β} {m n : Nat} {a : α} {b : β}
    (h : f a = σ.grant n b) : (σ.grant m a >>= f) = σ.grant (max m n) b := by
  by_cases hm : m ≤ σ.room
  · have hmax : max m n ≤ σ.room ↔ n ≤ σ.room := by omega
    simp only [grant, if_pos hm, ok_bind, hmax]
    exact h
  · have hmax : ¬max m n ≤ σ.room := by omega
    rw [grant, grant, if_neg hm, if_neg hmax, error_bind]

/-- What follows a result without a further node takes no level. -/
theorem grant_bind_of_ok {f : α → Except QueryError β} {m : Nat} {a : α} {b : β}
    (h : f a = .ok b) : (σ.grant m a >>= f) = σ.grant m b := by
  rw [← grant_zero (σ := σ) b] at h
  rw [grant_bind_eq_grant h, Nat.max_zero]

end Scope

namespace Expr

mutual

theorem render_within (e : Expr) {σ : Scope} {f : Fragment} (h : e.render σ = .ok f) (m : Nat) :
    e.render (σ.within m) = (σ.within m).grant e.depth f := by
  cases e with
  | literal type value =>
    obtain ⟨-, hf⟩ := render_literal.mp h
    rw [render, depth]
    apply Scope.enter_bind_eq_grant
    rw [Scope.grant_zero, hf]
  | property path =>
    obtain ⟨-, text, htext, rfl⟩ := render_property.mp h
    have hdeeper : pathText (σ.within m).deeper path = .ok text := htext
    rw [render, depth]
    apply Scope.enter_bind_eq_grant
    rw [Scope.grant_zero, hdeeper, ok_bind, pure_eq_ok]
  | function name args =>
    obtain ⟨-, texts, htexts, rfl⟩ := render_function.mp h
    have hargs : renderArgs args (σ.within m).deeper =
      (σ.within m).deeper.grant (depthArgs args) texts := renderArgs_within args htexts m
    rw [render, depth]
    apply Scope.enter_bind_eq_grant
    rw [hargs]
    exact Scope.grant_bind_of_ok rfl

theorem renderArgs_within (es : List Expr) {σ : Scope} {texts : List String}
    (h : renderArgs es σ = .ok texts) (m : Nat) :
    renderArgs es (σ.within m) = (σ.within m).grant (depthArgs es) texts := by
  cases es with
  | nil =>
    obtain rfl := Except.ok.inj h
    exact (Scope.grant_zero _).symm
  | cons e es =>
    obtain ⟨text, rest, he, hes, rfl⟩ := renderArgs_cons.mp h
    rw [renderArgs, depthArgs, render_within e he m, renderArgs_within es hes m]
    apply Scope.grant_bind_eq_grant
    rw [Fragment.asText, ok_bind]
    exact Scope.grant_bind_of_ok rfl

end

end Expr

namespace Predicate

theorem renderBinary_within {op : BinaryOp} {left right : Expr} {σ : Scope} {t : String}
    (h : (binary op left right).render σ = .ok t) (m : Nat) :
    renderBinary op left right (σ.deeper.within m) =
      (σ.deeper.within m).grant (max left.depth right.depth) t := by
  by_cases hop : op = .isIn
  · subst hop
    obtain ⟨-, l, items, hl, hr, rfl⟩ := render_membership.mp h
    rw [renderBinary, left.render_within hl m, right.render_within hr m]
    apply Scope.grant_bind_eq_grant
    exact Scope.grant_bind_of_ok rfl
  · obtain ⟨-, l, r, hl, hr, rfl⟩ := (render_comparison hop).mp h
    rw [renderBinary, left.render_within hl m, right.render_within hr m]
    apply Scope.grant_bind_eq_grant
    apply Scope.grant_bind_of_ok
    rw [if_neg hop]
    rfl

mutual

/-- A tree that renders under some limit renders under another one to the same text as far as
its depth allows. -/
theorem render_within (p : Predicate) {σ : Scope} {t : String} (h : p.render σ = .ok t) (m : Nat) :
    p.render (σ.within m) = (σ.within m).grant p.depth t := by
  cases p with
  | passthrough text =>
    obtain ⟨-, rfl⟩ := render_passthrough.mp h
    rw [render, depth]
    apply Scope.enter_bind_eq_grant
    exact (Scope.grant_zero _).symm
  | not operand =>
    obtain ⟨-, s, hs, rfl⟩ := render_not.mp h
    have hoperand : operand.render (σ.within m).deeper =
      (σ.within m).deeper.grant operand.depth s := render_within operand hs m
    rw [render, depth]
    apply Scope.enter_bind_eq_grant
    rw [hoperand]
    exact Scope.grant_bind_of_ok rfl
  | binary op left right =>
    rw [render, depth]
    apply Scope.enter_bind_eq_grant
    exact renderBinary_within h m
  | junction op operands =>
    obtain ⟨-, texts, htexts, rfl⟩ := render_junction.mp h
    have hoperands : renderOperands operands (σ.within m).deeper =
      (σ.within m).deeper.grant (depthOperands operands) texts :=
        renderOperands_within operands htexts m
    rw [render, depth]
    apply Scope.enter_bind_eq_grant
    rw [hoperands]
    exact Scope.grant_bind_of_ok rfl
  | lambda op source body =>
    obtain ⟨-, s, b, hs, hb, rfl⟩ := render_lambda.mp h
    have hsource : source.render (σ.within m).deeper =
      (σ.within m).deeper.grant source.depth (.text s) := source.render_within hs m
    -- the body's scope is another one, with the same levels left
    have hbody : body.render ((σ.within m).deeper.bind source) =
      (σ.within m).deeper.grant body.depth b := render_within body hb m
    rw [render, depth]
    apply Scope.enter_bind_eq_grant
    rw [hsource]
    apply Scope.grant_bind_eq_grant
    rw [Fragment.asText, ok_bind, hbody]
    exact Scope.grant_bind_of_ok rfl

theorem renderOperands_within (ps : List Predicate) {σ : Scope} {texts : List String}
    (h : renderOperands ps σ = .ok texts) (m : Nat) :
    renderOperands ps (σ.within m) = (σ.within m).grant (depthOperands ps) texts := by
  cases ps with
  | nil =>
    obtain rfl := Except.ok.inj h
    exact (Scope.grant_zero _).symm
  | cons p ps =>
    obtain ⟨text, rest, hp, hps, rfl⟩ := renderOperands_cons.mp h
    rw [renderOperands, depthOperands, render_within p hp m, renderOperands_within ps hps m]
    apply Scope.grant_bind_eq_grant
    exact Scope.grant_bind_of_ok rfl

end

/-- What renders has no more levels than the limit admits. -/
theorem depth_le_room {p : Predicate} {σ : Scope} {t : String} (h : p.render σ = .ok t) :
    p.depth ≤ σ.room := by
  have hsame : p.render σ = σ.grant p.depth t := p.render_within h σ.limit
  exact Scope.le_room_of_grant (hsame.symm.trans h)

end Predicate

namespace EntityQuery

variable {q : EntityQuery} {resolver : Resolver} {o o' : CompileOptions}

/-- Of its options a compilation reads only what the filter's text depends on. -/
theorem compile_congr_filter {filter' : Option Predicate} (ho : o.validate = .ok ())
    (ho' : o'.validate = .ok ())
    (h : clauseText q.filter
        (·.render (.root (some (resolver.entityType q.resourcePath)) o.dialect o.maxDepth)) =
      clauseText filter'
        (·.render (.root (some (resolver.entityType q.resourcePath)) o'.dialect o'.maxDepth))) :
    q.compile resolver o = { q with filter := filter' }.compile resolver o' := by
  rw [compile, compile, ho, ho', options, h]
  rfl

/-- A filter is the first clause that a compilation writes. -/
theorem compile_of_filter_error {p : Predicate} {e : QueryError} (ho : o.validate = .ok ())
    (hp : q.filter = some p)
    (h : p.render (.root (some (resolver.entityType q.resourcePath)) o.dialect o.maxDepth) =
      .error e) :
    q.compile resolver o = .error e := by
  rw [compile, ho, options, hp, clauseText, h]
  rfl

end EntityQuery

theorem CompileOptions.validate_of_pos {dialect : Dialect} {limit : Nat} (h : 1 ≤ limit) :
    validate ⟨dialect, limit⟩ = .ok () :=
  if_neg (Nat.ne_of_gt h)

/-- **The depth limit is exact and alters no text.** A filter that renders under some limit
renders to the same text under every limit that its depth keeps, and under every other one the
limit is reported; a filter that is too deep never renders. A compilation writes the filter's
text as if the query held it in place of the tree, or reports the limit. -/
theorem Predicate.render_limit (p : Predicate) (dialect : Dialect) :
    (∀ type limit t, p.render (.root type dialect limit) = .ok t →
      ∀ m, p.render (.root type dialect m) =
        if p.depth ≤ m then .ok t else .error (.depthExceeded m)) ∧
    (∀ type m, m < p.depth → ∃ e, p.render (.root type dialect m) = .error e) ∧
    ∀ (q : EntityQuery) (resolver : Resolver), q.filter = some p →
      (∀ limit t,
        p.render (.root (some (resolver.entityType q.resourcePath)) dialect limit) = .ok t →
        ∀ m, 1 ≤ m → q.compile resolver ⟨dialect, m⟩ =
          if p.depth ≤ m then
            { q with filter := some (.passthrough t) }.compile resolver ⟨dialect, 1⟩
          else .error (.depthExceeded m)) ∧
      ∀ m, 1 ≤ m → m < p.depth → ∃ e, q.compile resolver ⟨dialect, m⟩ = .error e := by
  have hexact : ∀ type limit t, p.render (.root type dialect limit) = .ok t →
      ∀ m, p.render (.root type dialect m) =
        if p.depth ≤ m then .ok t else .error (.depthExceeded m) := by
    intro type limit t ht m
    exact p.render_within ht m
  have hdeep : ∀ type m, m < p.depth → ∃ e, p.render (.root type dialect m) = .error e := by
    intro type m hm
    cases ht : p.render (.root type dialect m) with
    | error e => exact ⟨e, rfl⟩
    | ok t =>
      have hroom := depth_le_room ht
      rw [Scope.room_root] at hroom
      omega
  refine ⟨hexact, hdeep, fun q resolver hq => ⟨?_, ?_⟩⟩
  · intro limit t ht m hm
    have hlimited := hexact _ limit t ht m
    by_cases hdepth : p.depth ≤ m
    · rw [if_pos hdepth] at hlimited ⊢
      apply EntityQuery.compile_congr_filter (CompileOptions.validate_of_pos hm)
        (CompileOptions.validate_of_pos (Nat.le_refl 1))
      rw [hq, EntityQuery.clauseText, hlimited]
      rfl
    · rw [if_neg hdepth] at hlimited ⊢
      exact EntityQuery.compile_of_filter_error (CompileOptions.validate_of_pos hm) hq hlimited
  · intro m hm hdepth
    obtain ⟨e, he⟩ := hdeep (some (resolver.entityType q.resourcePath)) m hdepth
    exact ⟨e, EntityQuery.compile_of_filter_error (CompileOptions.validate_of_pos hm) hq he⟩

/-- The longest way down goes through a negation, a lambda's body and a call. -/
def noShortTitle : Predicate :=
  .not (.lambda .any (.property ⟨["books"]⟩)
    (.binary .lt (.function "length" [.property ⟨["title"]⟩]) (.literal .int32 (.int 4))))

def authorsWithoutShortTitle : EntityQuery where
  resource := "Authors"
  filter := some noShortTitle

theorem Predicate.render_noShortTitle :
    noShortTitle.render (.root none .v4 5) = .ok "not (books/any(x1: x1/length(title) lt 4))" ∧
    noShortTitle.render (.root none .v4 4) = .error (.depthExceeded 4) ∧
    authorsWithoutShortTitle.compile (.absent .camelCase) ⟨.v4, 5⟩ =
      .ok "Authors?$filter=not%20(Books%2Fany(x1%3A%20x1%2Flength(title)%20lt%204))" ∧
    authorsWithoutShortTitle.compile (.absent .camelCase) ⟨.v4, 4⟩ = .error (.depthExceeded 4) := by
  obtain ⟨hexact, -, hcompile⟩ := render_limit noShortTitle .v4
  have hrender := hexact none 128 _ rfl
  have hquery := (hcompile authorsWithoutShortTitle (.absent .camelCase) rfl).1 128 _ rfl
  exact ⟨hrender 5, hrender 4, hquery 5 (by omega), hquery 4 (by omega)⟩

end ODataQuery
