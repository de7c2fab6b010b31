import ODataQuery.Proofs.Filter.Place

/-!
# Where the bound variable is written

Inside a lambda every path resolves against the type of the bound variable. The
variable is written once in front of a left operand and of a source, whatever that
operand is, and never inside it: so it stands right before a path exactly when the
path is such an operand by itself. A path in a right operand or inside a call is
written without it, and a server reads it against another entity.
-/

namespace ODataQuery

/-- A text that is written again and again does not notice what stands around. -/
theorem exists_intercalate_enclosed (pre post : String) (pieces : List String) :
    ∃ (pieces' : List String) (enclose : String → String), pieces'.length = pieces.length ∧
      ∀ u last : String, pre ++ u.intercalate (pieces ++ [last]) ++ post =
        u.intercalate (pieces' ++ [enclose last]) := by
  have hend (u last : String) (ps : List String) :
      u.intercalate (ps ++ [last]) ++ post = u.intercalate (ps ++ [last ++ post]) := by
    induction ps with
    | nil => simp
    | cons p ps ih =>
      rw [List.cons_append, List.cons_append, String.intercalate_cons_of_ne_nil (by simp),
        String.intercalate_cons_of_ne_nil (by simp), String.append_assoc, ih]
  cases pieces with
  | nil => exact ⟨[], fun last => pre ++ last ++ post, rfl, fun u last => by simp⟩
  | cons p ps =>
    refine ⟨(pre ++ p) :: ps, fun last => last ++ post, rfl, fun u last => ?_⟩
    rw [String.append_assoc, hend, List.cons_append, List.cons_append,
      String.intercalate_cons_append]

/-- The text ends, and not on a slash. -/
def EndsOpen (s : String) : Prop := ∃ c, s.toList.getLast? = some c ∧ c ≠ '/'

namespace EndsOpen

theorem append {s : String} (h : EndsOpen s) (before : String) : EndsOpen (before ++ s) := by
  obtain ⟨c, hc, hne⟩ := h
  exact ⟨c, by rw [String.toList_append, List.getLast?_append, hc]; rfl, hne⟩

end EndsOpen

namespace Call

theorem endsOpen_around {c : Call} {σ : Scope} {pre post : String}
    (h : c.around σ = .ok (pre, post)) : EndsOpen pre := by
  simp only [around, bind_eq_ok, pure_eq_ok, Except.ok.injEq, Prod.mk.injEq] at h
  obtain ⟨_, -, texts, -, rest, -, rfl, -⟩ := h
  cases texts with
  | nil =>
    exact ⟨'(', by simp, by decide⟩
  | cons x xs =>
    refine .append (s := ",".intercalate (x :: xs ++ [""])) ?_ _
    rw [String.intercalate_append_of_ne_nil (by simp) (by simp)]
    exact ⟨',', by simp, by decide⟩

theorem endsOpen_aroundAll {calls : List Call} {σ : Scope} {pre post : String}
    (hcalls : calls ≠ []) (h : aroundAll σ calls = .ok (pre, post)) : EndsOpen pre := by
  induction calls generalizing σ pre post with
  | nil => exact absurd rfl hcalls
  | cons c calls ih =>
    simp only [aroundAll, bind_eq_ok, pure_eq_ok, Except.ok.injEq, Prod.mk.injEq] at h
    obtain ⟨⟨outer, _⟩, houter, ⟨inner, _⟩, hinner, rfl, -⟩ := h
    by_cases hnil : calls = []
    · subst hnil
      obtain ⟨rfl, -⟩ := Prod.mk.inj (Except.ok.inj hinner)
      simpa using endsOpen_around houter
    · exact (ih hnil hinner).append outer

/-- What stands inside calls is written between two texts of theirs. -/
theorem written (calls : List Call) (σ : Scope) :
    ∃ pre post : String, (if calls = [] then pre = "" else EndsOpen pre) ∧
      ∀ e u, (nest calls e).render σ = .ok (.text u) →
        ∃ s, e.render (σ.below calls.length) = .ok (.text s) ∧ u = pre ++ s ++ post := by
  cases haround : aroundAll σ calls with
  | ok texts =>
    refine ⟨texts.1, texts.2, ?_, fun e u h => ?_⟩
    · by_cases hcalls : calls = []
      · subst hcalls
        obtain rfl := Except.ok.inj haround
        rfl
      · rw [if_neg hcalls]
        exact endsOpen_aroundAll hcalls haround
    · obtain ⟨pre, post, s, htexts, hs, rfl⟩ := render_nest.mp h
      obtain rfl := Except.ok.inj (haround.symm.trans htexts)
      exact ⟨s, hs, rfl⟩
  | error e =>
    -- an argument beside the way is refused, so there are calls and none is rendered
    refine ⟨" ", "", ?_, fun e u h => ?_⟩
    · have hcalls : calls ≠ [] := by
        rintro rfl
        cases haround
      rw [if_neg hcalls]
      exact ⟨' ', by decide, by decide⟩
    · obtain ⟨pre, post, s, htexts, -, -⟩ := render_nest.mp h
      rw [haround] at htexts
      cases htexts

end Call

namespace Predicate

theorem comparisonText_left (dialect : Dialect) (op : BinaryOp) (right : String) :
    ∃ pre post : String, ∀ left, comparisonText dialect op left right = pre ++ left ++ post := by
  by_cases hfunction : op.isFunction
  · by_cases hneedle : dialect.token op.key = "substringof"
    · refine ⟨"substringof" ++ "(" ++ right ++ ",", ") eq true", fun left => ?_⟩
      simp only [comparisonText, hfunction, hneedle, ↓reduceIte]
    · refine ⟨dialect.token op.key ++ "(", "," ++ right ++ ") eq true", fun left => ?_⟩
      simp only [comparisonText, hfunction, hneedle, ↓reduceIte, String.append_assoc]
  · refine ⟨"", " " ++ dialect.token op.key ++ " " ++ right, fun left => ?_⟩
    simp only [comparisonText, hfunction, Bool.false_eq_true, ↓reduceIte, String.empty_append,
      String.append_assoc]

theorem comparisonText_right (dialect : Dialect) (op : BinaryOp) (left : String) :
    ∃ pre post : String, EndsOpen pre ∧
      ∀ right, comparisonText dialect op left right = pre ++ right ++ post := by
  by_cases hfunction : op.isFunction
  · by_cases hneedle : dialect.token op.key = "substringof"
    · refine ⟨"substringof" ++ "(", "," ++ left ++ ") eq true", ⟨'(', by decide, by decide⟩,
        fun right => ?_⟩
      simp only [comparisonText, hfunction, hneedle, ↓reduceIte, String.append_assoc]
    · have hcomma : EndsOpen "," := ⟨',', by decide, by decide⟩
      refine ⟨dialect.token op.key ++ "(" ++ left ++ ",", ") eq true", hcomma.append _,
        fun right => ?_⟩
      simp only [comparisonText, hfunction, hneedle, ↓reduceIte]
  · have hblank : EndsOpen " " := ⟨' ', by decide, by decide⟩
    refine ⟨left ++ " " ++ dialect.token op.key ++ " ", "", hblank.append _, fun right => ?_⟩
    simp only [comparisonText, hfunction, Bool.false_eq_true, ↓reduceIte, String.append_empty]

/-- The chain of comparisons has the left operand once for each element. -/
theorem disjuncts_left (item : String) (items : List String) :
    ∃ (pieces : List String) (last : String), pieces.length = items.length ∧ ∀ left : String,
      " or ".intercalate ((item :: items).map fun i => "(" ++ left ++ " eq " ++ i ++ ")") =
        left.intercalate ("(" :: pieces ++ [last]) := by
  induction items generalizing item with
  | nil => exact ⟨[], " eq " ++ item ++ ")", rfl, fun left => by simp [String.append_assoc]⟩
  | cons next items ih =>
    obtain ⟨pieces, last, hlength, hrest⟩ := ih next
    refine ⟨(" eq " ++ item ++ ") or " ++ "(") :: pieces, last, congrArg (· + 1) hlength,
      fun left => ?_⟩
    have hstep : left.intercalate ((" eq " ++ item ++ ") or " ++ "(") :: (pieces ++ [last])) =
        " eq " ++ item ++ ") or " ++ left.intercalate ("(" :: (pieces ++ [last])) :=
      String.intercalate_cons_append
    rw [List.map_cons, String.intercalate_cons_of_ne_nil (by simp), hrest, List.cons_append,
      List.cons_append, List.cons_append, String.intercalate_cons_cons, hstep, ← String.toList_inj]
    simp

/-- How often membership in a list of so many elements names its left operand. -/
def membershipCopies (dialect : Dialect) (size : Nat) : Nat :=
  if dialect.hasNativeIn then min 1 size else size

theorem membershipText_left (dialect : Dialect) (items : List String) :
    ∃ (pieces : List String) (last : String),
      pieces.length = membershipCopies dialect items.length ∧
      ∀ left, membershipText dialect left items = left.intercalate (pieces ++ [last]) := by
  cases items with
  | nil => exact ⟨[], "", by simp [membershipCopies], fun left => by simp [membershipText]⟩
  | cons item items =>
    by_cases hnative : dialect.hasNativeIn
    · refine ⟨[""], " in (" ++ ",".intercalate (item :: items) ++ ")", ?_, fun left => ?_⟩
      · rw [membershipCopies, if_pos hnative, List.length_cons]
        simp
      · simp [membershipText, hnative, String.append_assoc]
    · obtain ⟨pieces, last, hlength, hchain⟩ := disjuncts_left item items
      refine ⟨"(" :: pieces, last, ?_, fun left => ?_⟩
      · rw [membershipCopies, if_neg hnative, List.length_cons, List.length_cons, hlength]
      · simp only [membershipText, List.isEmpty_cons, hnative, Bool.false_eq_true, ↓reduceIte,
          hchain]

end Predicate

namespace Slot

/-- Whether the variable is written in front of what stands here. -/
def isQualified : Slot → Bool
  | .rightOperand _ _ => false
  | _ => true

/-- How often the node writes what stands here. -/
def copies (dialect : Dialect) : Slot → Nat
  | .leftOperand .isIn (.literal _ (.list values)) =>
    Predicate.membershipCopies dialect values.length
  | _ => 1

def isSource : Slot → Bool
  | .lambdaSource _ _ => true
  | _ => false

theorem copies_of_comparison {op : BinaryOp} (hop : op ≠ .isIn) (dialect : Dialect)
    (right : Expr) : (leftOperand op right).copies dialect = 1 := by
  unfold copies
  split
  · next heq => exact absurd (Slot.leftOperand.inj heq).1 hop
  · rfl

theorem qualify_eq (σ : Scope) (text : String) : σ.qualify text = σ.qualify "" ++ text := by
  unfold Scope.qualify
  cases σ.bound <;> simp

section

variable (op : BinaryOp) (σ : Scope)

/-- A left operand stands behind the variable as often as the node writes it. -/
theorem written_left (right : Expr) :
    ∃ (pieces : List String) (last : String),
      pieces.length = (leftOperand op right).copies σ.dialect ∧
      ∀ e u t, e.render σ.deeper = .ok (.text u) →
        ((leftOperand op right).fill e).render σ = .ok t →
        t = (σ.qualify "" ++ u).intercalate (pieces ++ [last]) := by
  by_cases hop : op = .isIn
  · subst hop
    by_cases hright : ∃ items, right.render σ.deeper = .ok (.list items)
    · obtain ⟨items, hitems⟩ := hright
      obtain ⟨declared, values, rfl⟩ := Expr.eq_literal_of_render_list hitems
      obtain ⟨pieces, last, hlength, htext⟩ := Predicate.membershipText_left σ.dialect items
      refine ⟨pieces, last, ?_, fun e u t he h => ?_⟩
      · rw [hlength, Expr.length_of_render_list hitems]
        rfl
      · obtain ⟨-, l, items', hl, hr, rfl⟩ := Predicate.render_membership.mp h
        obtain rfl := Fragment.text.inj (Except.ok.inj (hl.symm.trans he))
        obtain rfl := Fragment.list.inj (Except.ok.inj (hr.symm.trans hitems))
        rw [htext, qualify_eq]
    · refine ⟨.replicate _ "", "", List.length_replicate, fun e u t _ h => ?_⟩
      obtain ⟨-, _, items, -, hr, -⟩ := Predicate.render_membership.mp h
      exact absurd ⟨items, hr⟩ hright
  · rw [copies_of_comparison hop]
    by_cases hright : ∃ r, right.render σ.deeper = .ok (.text r)
    · obtain ⟨r, hr⟩ := hright
      obtain ⟨pre, post, htext⟩ := Predicate.comparisonText_left σ.dialect op r
      refine ⟨[pre], post, rfl, fun e u t he h => ?_⟩
      obtain ⟨-, l, r', hl, hr', rfl⟩ := (Predicate.render_comparison hop).mp h
      obtain rfl := Fragment.text.inj (Except.ok.inj (hl.symm.trans he))
      obtain rfl := Fragment.text.inj (Except.ok.inj (hr'.symm.trans hr))
      rw [htext, qualify_eq]
      simp
    · refine ⟨[""], "", rfl, fun e u t _ h => ?_⟩
      obtain ⟨-, _, r, -, hr, -⟩ := (Predicate.render_comparison hop).mp h
      exact absurd ⟨r, hr⟩ hright

/-- A right operand stands behind the operator, a parenthesis or a comma. -/
theorem written_right (left : Expr) :
    ∃ mark last : String, EndsOpen mark ∧
      ∀ e u t, e.render σ.deeper = .ok (.text u) →
        ((rightOperand op left).fill e).render σ = .ok t →
        t = (mark ++ u).intercalate ["", last] := by
  have hblank : EndsOpen " " := ⟨' ', by decide, by decide⟩
  by_cases hop : op = .isIn
  · subst hop
    refine ⟨" ", "", hblank, fun e u t he h => ?_⟩
    obtain ⟨-, _, items, -, hr, -⟩ := Predicate.render_membership.mp h
    cases hr.symm.trans he
  · by_cases hleft : ∃ l, left.render σ.deeper = .ok (.text l)
    · obtain ⟨l, hl⟩ := hleft
      obtain ⟨pre, post, hopen, htext⟩ :=
        Predicate.comparisonText_right σ.dialect op (σ.qualify l)
      refine ⟨pre, post, hopen, fun e u t he h => ?_⟩
      obtain ⟨-, l', r, hl', hr, rfl⟩ := (Predicate.render_comparison hop).mp h
      obtain rfl := Fragment.text.inj (Except.ok.inj (hr.symm.trans he))
      obtain rfl := Fragment.text.inj (Except.ok.inj (hl'.symm.trans hl))
      rw [htext]
      simp
    · refine ⟨" ", "", hblank, fun e u t _ h => ?_⟩
      obtain ⟨-, l, _, hl, -⟩ := (Predicate.render_comparison hop).mp h
      exact absurd ⟨l, hl⟩ hleft

/-- A source stands behind the variable. What is written behind it depends on the source only
when this is a path, which gives the body its type. -/
theorem written_source (op : Quantifier) (body : Predicate) :
    ∃ last : String, ∀ e u t, e.render σ.deeper = .ok (.text u) →
      ((lambdaSource op body).fill e).render σ = .ok t →
      ∃ rest, t = (σ.qualify "" ++ u).intercalate ["", rest] ∧
        (rest = last ∨ ∃ path, e = .property path) := by
  have hbehind (b : String) (u : String) :
      σ.qualify u ++ "/" ++ op.key ++ "(" ++ Scope.variableName σ.nextVariable ++ ": " ++ b ++ ")" =
        (σ.qualify "" ++ u).intercalate
          ["", "/" ++ op.key ++ "(" ++ Scope.variableName σ.nextVariable ++ ": " ++ b ++ ")"] := by
    rw [qualify_eq]
    simp [String.append_assoc]
  -- the scope of the body behind any source that is not a path
  let untyped : Scope := { σ.deeper with entityType := none, bound := some σ.deeper.nextVariable }
  refine ⟨"/" ++ op.key ++ "(" ++ Scope.variableName σ.nextVariable ++ ": " ++
    (body.render untyped).toOption.getD "" ++ ")", fun e u t he h => ?_⟩
  obtain ⟨-, u', b, hu', hb, rfl⟩ := Predicate.render_lambda.mp h
  obtain rfl := Fragment.text.inj (Except.ok.inj (hu'.symm.trans he))
  refine ⟨_, hbehind b u', ?_⟩
  cases e with
  | property path => exact .inr ⟨path, rfl⟩
  | literal | function =>
    have huntyped : body.render untyped = .ok b := hb
    rw [huntyped]
    exact .inl rfl

end

/-- What stands in a slot is written behind the same mark each time. -/
theorem written (s : Slot) (σ : Scope) :
    ∃ (mark last : String) (pieces : List String),
      (if s.isQualified then mark = σ.qualify "" else EndsOpen mark) ∧
      pieces.length = s.copies σ.dialect ∧
      ∀ e u t, e.render σ.deeper = .ok (.text u) → (s.fill e).render σ = .ok t →
        ∃ rest, t = (mark ++ u).intercalate (pieces ++ [rest]) ∧
          (rest = last ∨ s.isSource ∧ ∃ path, e = .property path) := by
  cases s with
  | leftOperand op right =>
    obtain ⟨pieces, last, hlength, hwritten⟩ := written_left op σ right
    exact ⟨_, last, pieces, rfl, hlength, fun e u t he h => ⟨last, hwritten e u t he h, .inl rfl⟩⟩
  | rightOperand op left =>
    obtain ⟨mark, last, hopen, hwritten⟩ := written_right op σ left
    exact ⟨mark, last, [""], hopen, rfl, fun e u t he h => ⟨last, hwritten e u t he h, .inl rfl⟩⟩
  | lambdaSource op body =>
    obtain ⟨last, hwritten⟩ := written_source σ op body
    refine ⟨_, last, [""], rfl, rfl, fun e u t he h => ?_⟩
    obtain ⟨rest, ht, hrest⟩ := hwritten e u t he h
    exact ⟨rest, ht, hrest.imp_right fun hpath => ⟨rfl, hpath⟩⟩

end Slot

namespace Place

/-- The path at the place is a left operand or a source by itself. -/
def IsQualified (X : Place) : Prop := X.calls = [] ∧ X.slot.isQualified

/-- The path at the place is a source by itself, so what the lambda ranges over depends on it. -/
def IsSource (X : Place) : Prop := X.calls = [] ∧ X.slot.isSource

/-- What stands at a place is written behind the same mark each time. Only a
qualified place has the variable for its mark. -/
theorem written (X : Place) (σ : Scope) :
    ∃ (mark tail last : String) (pieces : List String),
      (X.IsQualified → mark = (X.context.scope σ).qualify "") ∧
      (¬X.IsQualified → EndsOpen mark) ∧ pieces.length = X.slot.copies σ.dialect ∧
      ∀ path t, (X.fill (.property path)).render σ = .ok t →
        ∃ text rest, Expr.pathText (X.scope σ) path = .ok text ∧
          t = (mark ++ text ++ tail).intercalate (pieces ++ [rest]) ∧
          (rest = last ∨ X.IsSource) := by
  obtain ⟨before, behind, hbetween, -⟩ := X.context.render_between σ
  obtain ⟨mark, last, pieces, hmark, hlength, hslot⟩ := X.slot.written (X.context.scope σ)
  obtain ⟨pre, post, hpre, hcalls⟩ := Call.written X.calls (X.context.scope σ).deeper
  obtain ⟨pieces', enclose, hlength', henclosed⟩ :=
    exists_intercalate_enclosed before behind pieces
  rw [X.context.scope_dialect] at hlength
  refine ⟨mark ++ pre, post, enclose last, pieces', ?_, ?_, hlength'.trans hlength, ?_⟩
  · rintro ⟨hnil, hqualified⟩
    rw [if_pos hnil] at hpre
    rw [if_pos hqualified] at hmark
    rw [hpre, String.append_empty, hmark]
  · intro hunqualified
    by_cases hnil : X.calls = []
    · rw [if_pos hnil] at hpre
      rw [if_neg fun hqualified => hunqualified ⟨hnil, hqualified⟩] at hmark
      rwa [hpre, String.append_empty]
    · rw [if_neg hnil] at hpre
      exact hpre.append mark
  · intro path t h
    obtain ⟨q, hq, rfl⟩ := hbetween _ t h
    obtain ⟨f, hf, -⟩ := Slot.render_fill hq
    cases f with
    | text u =>
      obtain ⟨s, hs, rfl⟩ := hcalls (.property path) u hf
      obtain ⟨-, text, htext, hfragment⟩ := Expr.render_property.mp hs
      obtain rfl := Fragment.text.inj hfragment
      obtain ⟨rest, rfl, hrest⟩ := hslot _ _ q hf hq
      refine ⟨s, enclose rest, htext, ?_, ?_⟩
      · rw [henclosed]
        simp only [String.append_assoc]
      · refine hrest.imp (congrArg enclose) fun ⟨hsource, path', hpath⟩ => ⟨?_, hsource⟩
        exact Call.eq_nil_of_nest_property hpath
    | list items =>
      have hnil := Call.eq_nil_of_render_list hf
      rw [hnil] at hf
      obtain ⟨declared, values, heq⟩ := Expr.eq_literal_of_render_list hf
      cases heq

end Place

namespace Predicate

/-- **The variable stands in front of left operands and sources only.** Below a lambda a path at
any place resolves against the type in scope. It is written as often as its node writes what
stands there, each time between the same two texts: behind the innermost variable when the path
is a left operand or a source by itself, and otherwise behind a text that does not end on a
slash, so without any variable. What follows the last copy depends on the path only where this
is a source. -/
theorem path_behind_variable_iff (X : Place) (type : Option EntityType) (dialect : Dialect)
    (limit : Nat) (hbound : 0 < X.context.lambdas) :
    ∃ (mark tail last : String) (pieces : List String),
      pieces.length = X.slot.copies dialect ∧
      (X.IsQualified → mark = Scope.variableName X.context.lambdas ++ "/") ∧
      (¬X.IsQualified → EndsOpen mark) ∧
      ∀ path t, (X.fill (.property path)).render (.root type dialect limit) = .ok t →
        ∃ text rest,
          Expr.pathText (.root (X.context.elementType type) dialect limit) path = .ok text ∧
          t = (mark ++ text ++ tail).intercalate (pieces ++ [rest]) ∧
          (rest = last ∨ X.IsSource) := by
  obtain ⟨mark, tail, last, pieces, hqualified, hunqualified, hlength, hwritten⟩ :=
    X.written (.root type dialect limit)
  refine ⟨mark, tail, last, pieces, hlength, fun hX => ?_, hunqualified, fun path t h => ?_⟩
  · have hscope : (X.context.scope (.root type dialect limit)).bound = some X.context.lambdas := by
      rw [X.context.scope_bound, if_neg (by omega)]
      exact congrArg some (Nat.zero_add _)
    rw [hqualified hX, Scope.qualify, hscope]
    simp
  · obtain ⟨text, rest, htext, ht, hrest⟩ := hwritten path t h
    refine ⟨text, rest, ?_, ht, hrest⟩
    rw [Expr.pathText, X.scope_entityType] at htext
    exact htext

/-- Customers and orders that both have a city. -/
def shop : Schema where
  entityTypes := [
    { name := "Customer", resource := some "Customers", properties := [{ name := "city" }],
      navigations := [{ name := "orders", target := "Order", isCollection := true }] },
    { name := "Order", properties := [{ name := "city" }, { name := "shipCity" }] }]

def customer : Option EntityType := (Resolver.schema shop).resolve? "Customers"

/-- Behind an operator, in what is said of the orders of a customer. -/
def behindOperator : Place :=
  ⟨[.lambda .any (.property ⟨["orders"]⟩)], .rightOperand .eq (.property ⟨["shipCity"]⟩), []⟩

/-- In front of a list of two cities, in what is said of the orders of a customer. -/
def beforeCities : Place :=
  ⟨[.lambda .any (.property ⟨["orders"]⟩)],
    .leftOperand .isIn (.literal .string (.list [.string "Graz", .string "Linz"])), []⟩

/-- Behind the operator no variable stands in front of any path, and in the chain of comparisons
it stands in front of both copies. -/
theorem cities_behind_operator_and_variable :
    0 < behindOperator.context.lambdas ∧ ¬behindOperator.IsQualified ∧
    (∃ (mark tail last : String) (pieces : List String), pieces.length = 1 ∧ EndsOpen mark ∧
      "orders/any(x1: x1/shipCity eq city)" =
        (mark ++ "city" ++ tail).intercalate (pieces ++ [last]) ∧
      "orders/any(x1: x1/shipCity eq shipCity)" =
        (mark ++ "shipCity" ++ tail).intercalate (pieces ++ [last])) ∧
    0 < beforeCities.context.lambdas ∧ beforeCities.IsQualified ∧
    ∃ (tail last : String) (pieces : List String), pieces.length = 2 ∧
      "orders/any(x1: (x1/city eq 'Graz') or (x1/city eq 'Linz'))" =
        ("x1/" ++ "city" ++ tail).intercalate (pieces ++ [last]) ∧
      "orders/any(x1: (x1/shipCity eq 'Graz') or (x1/shipCity eq 'Linz'))" =
        ("x1/" ++ "shipCity" ++ tail).intercalate (pieces ++ [last]) := by
  have hbare : ¬behindOperator.IsQualified := fun hqualified => by cases hqualified.2
  have hqualified : beforeCities.IsQualified := ⟨rfl, rfl⟩
  have hsource : ¬behindOperator.IsSource := fun hsource => by cases hsource.2
  have hsource' : ¬beforeCities.IsSource := fun hsource => by cases hsource.2
  refine ⟨by decide, hbare, ?_, by decide, hqualified, ?_⟩
  · obtain ⟨mark, tail, last, pieces, hlength, -, hopen, hwritten⟩ :=
      path_behind_variable_iff behindOperator customer .v4 9 (by decide)
    obtain ⟨_, _, htext, hcity, hlast⟩ :=
      hwritten ⟨["city"]⟩ "orders/any(x1: x1/shipCity eq city)" (by rfl)
    obtain ⟨_, _, htext', hshipCity, hlast'⟩ :=
      hwritten ⟨["shipCity"]⟩ "orders/any(x1: x1/shipCity eq shipCity)" (by rfl)
    obtain rfl := Except.ok.inj htext
    obtain rfl := Except.ok.inj htext'
    obtain rfl := hlast.resolve_right hsource
    obtain rfl := hlast'.resolve_right hsource
    exact ⟨mark, tail, _, pieces, hlength, hopen hbare, hcity, hshipCity⟩
  · obtain ⟨mark, tail, last, pieces, hlength, hmark, -, hwritten⟩ :=
      path_behind_variable_iff beforeCities customer .v4 9 (by decide)
    obtain rfl := hmark hqualified
    obtain ⟨_, _, htext, hcity, hlast⟩ := hwritten ⟨["city"]⟩
      "orders/any(x1: (x1/city eq 'Graz') or (x1/city eq 'Linz'))" (by rfl)
    obtain ⟨_, _, htext', hshipCity, hlast'⟩ := hwritten ⟨["shipCity"]⟩
      "orders/any(x1: (x1/shipCity eq 'Graz') or (x1/shipCity eq 'Linz'))" (by rfl)
    obtain rfl := Except.ok.inj htext
    obtain rfl := Except.ok.inj htext'
    obtain rfl := hlast.resolve_right hsource'
    obtain rfl := hlast'.resolve_right hsource'
    exact ⟨tail, _, pieces, hlength, hcity, hshipCity⟩

/-- Two paths of an order that are written without its variable, one behind an
operator and one inside a call. -/
theorem city_of_order_read_from_customer :
    (behindOperator.fill (.property ⟨["city"]⟩)).render (.root customer .v4 9) =
        .ok "orders/any(x1: x1/shipCity eq city)" ∧
      ¬"x1/city".toList <:+: "orders/any(x1: x1/shipCity eq city)".toList ∧
    (Predicate.lambda .any (.property ⟨["orders"]⟩) (.binary .eq
        (.function "length" [.property ⟨["city"]⟩]) (.literal .int32 (.int 4)))).render
          (.root customer .v4 9) = .ok "orders/any(x1: x1/length(city) eq 4)" ∧
      ¬"x1/city".toList <:+: "orders/any(x1: x1/length(city) eq 4)".toList := by
  exact ⟨by rfl, by decide +kernel, by rfl, by decide +kernel⟩

end Predicate

end ODataQuery
