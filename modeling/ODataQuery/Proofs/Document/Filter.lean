import ODataQuery.Proofs.Document.Fields
import ODataQuery.Proofs.Document.Value
import ODataQuery.Proofs.Filter.Values
import ODataQuery.Proofs.PropertyPath

namespace ODataQuery

theorem PropertyPath.ofTree_tree {path : PropertyPath} (h : ∃ s, path = parse s) :
    ofTree path.tree = .ok path := by
  obtain ⟨s, rfl⟩ := h
  exact congrArg Except.ok (parse_dotted_parse s)

theorem DataType.ofTree_name (markup : Markup) (type : DataType) :
    ofTree markup (.text type.name) = .ok type :=
  Tree.asCase_text markup (ofName?_name type)

theorem BinaryOp.ofTree_key (op : BinaryOp) : ofTree (.text op.key) = .ok op :=
  Tree.asCase_text .json (ofKey?_key op)

theorem Connective.asCase_key (op : Connective) :
    (Tree.text op.key).asCase .json ofKey? = .ok op :=
  Tree.asCase_text .json (by cases op <;> rfl)

theorem Quantifier.asCase_key (op : Quantifier) :
    (Tree.text op.key).asCase .json ofKey? = .ok op :=
  Tree.asCase_text .json (by cases op <;> rfl)

namespace Expr

/-- A document keeps a path that was read and a literal without doubles. -/
def IsKept : Expr → Prop
  | .literal _ v => ∀ x, .float x ∉ v.atoms
  | .property path => ∃ s, path = .parse s
  | .function _ _ => True

variable {fuel : Nat}

theorem read_literal (type : DataType) {t : Tree} {v : Value} (h : Value.ofTree t = .ok v) :
    read (fuel + 1)
      (.object [("literal", .object [("data_type", .text type.name), ("value", t)])]) =
        .ok (.literal type v) := by
  simp [read, DataType.ofTree_name, h]

theorem read_function (name : String) {ts : List Tree} {args : List Expr}
    (h : ts.mapM (read fuel) = .ok args) :
    read (fuel + 1)
      (.object [("function", .object [("name", .text name), ("args", .list ts)])]) =
        .ok (.function name args) := by
  simp [read, Tree.asText, Tree.asList, h]

mutual

theorem read_tree (e : Expr) {fuel : Nat} (hfuel : e.tree.height ≤ fuel)
    (h : ∀ leaf ∈ e.leaves, leaf.IsKept) : read fuel e.tree = .ok (e.mapValues Value.reloaded) := by
  obtain ⟨fuel, rfl⟩ := Tree.eq_succ_of_height_le hfuel
  cases e with
  | literal type v => exact read_literal type (Value.ofTree_tree v (h _ List.mem_cons_self))
  | property path =>
    have hpath := PropertyPath.ofTree_tree (h _ List.mem_cons_self)
    simp [tree, read, hpath, mapValues]
  | function name args =>
    have hlist : (Tree.list (trees args)).height ≤ fuel :=
      Tree.height_le_of_case hfuel (List.mem_cons_of_mem _ List.mem_cons_self)
    exact read_function name (mapM_read_trees args (Nat.le_of_succ_le hlist) h)

theorem mapM_read_trees (es : List Expr) {fuel : Nat}
    (hfuel : Tree.itemsHeight (trees es) ≤ fuel) (h : ∀ leaf ∈ argLeaves es, leaf.IsKept) :
    (trees es).mapM (read fuel) = .ok (mapArgs Value.reloaded es) := by
  cases es with
  | nil => rfl
  | cons e es =>
    obtain ⟨hhead, htail⟩ := Nat.max_le.mp hfuel
    have hread := read_tree e hhead fun leaf hleaf => h leaf (List.mem_append_left _ hleaf)
    have hrest := mapM_read_trees es htail fun leaf hleaf => h leaf (List.mem_append_right _ hleaf)
    rw [trees, List.mapM_cons, hread, hrest]
    rfl

end

theorem ofTree_tree {e : Expr} (h : ∀ leaf ∈ e.leaves, leaf.IsKept) :
    ofTree e.tree = .ok (e.mapValues Value.reloaded) :=
  read_tree e (Nat.le_refl _) h

end Expr

namespace Predicate

variable {fuel : Nat}

theorem read_not {t : Tree} {p : Predicate} (h : read fuel t = .ok p) :
    read (fuel + 1) (.object [("unary", .object [("op", .text "not"), ("operand", t)])]) =
      .ok (.not p) := by
  have hop : (Tree.text "not").asCase .json negation? = .ok () := rfl
  simp [read, hop, h]

theorem read_binary (op : BinaryOp) {l r : Tree} {left right : Expr}
    (hleft : Expr.ofTree l = .ok left) (hright : Expr.ofTree r = .ok right) :
    read (fuel + 1)
      (.object [("binary", .object [("op", .text op.key), ("left", l), ("right", r)])]) =
        .ok (.binary op left right) := by
  simp [read, BinaryOp.ofTree_key, hleft, hright]

theorem read_junction (op : Connective) {ts : List Tree} {ps : List Predicate}
    (h : ts.mapM (read fuel) = .ok ps) :
    read (fuel + 1)
      (.object [("and_or", .object [("op", .text op.key), ("operands", .list ts)])]) =
        .ok (.junction op ps) := by
  simp [read, op.asCase_key, Tree.asList, h]

theorem read_lambda (op : Quantifier) {s t : Tree} {source : Expr} {body : Predicate}
    (hsource : Expr.ofTree s = .ok source) (hbody : read fuel t = .ok body) :
    read (fuel + 1)
      (.object [("any_all", .object [("op", .text op.key), ("source", s), ("predicate", t)])]) =
        .ok (.lambda op source body) := by
  simp [read, op.asCase_key, hsource, hbody]

mutual

theorem read_tree (p : Predicate) {fuel : Nat} (hfuel : p.tree.height ≤ fuel)
    (h : ∀ leaf ∈ p.leaves, leaf.IsKept) : read fuel p.tree = .ok (p.mapValues Value.reloaded) := by
  obtain ⟨fuel, rfl⟩ := Tree.eq_succ_of_height_le hfuel
  cases p with
  | passthrough text => rfl
  | not p =>
    have hbound : p.tree.height ≤ fuel :=
      Tree.height_le_of_case hfuel (List.mem_cons_of_mem _ List.mem_cons_self)
    exact read_not (read_tree p hbound h)
  | binary op left right =>
    have hleft := Expr.ofTree_tree fun leaf hleaf => h leaf (List.mem_append_left _ hleaf)
    have hright := Expr.ofTree_tree fun leaf hleaf => h leaf (List.mem_append_right _ hleaf)
    exact read_binary op hleft hright
  | junction op ps =>
    have hlist : (Tree.list (trees ps)).height ≤ fuel :=
      Tree.height_le_of_case hfuel (List.mem_cons_of_mem _ List.mem_cons_self)
    exact read_junction op (mapM_read_trees ps (Nat.le_of_succ_le hlist) h)
  | lambda op source body =>
    have hbound : body.tree.height ≤ fuel :=
      Tree.height_le_of_case hfuel
        (List.mem_cons_of_mem _ (List.mem_cons_of_mem _ List.mem_cons_self))
    have hsource := Expr.ofTree_tree fun leaf hleaf => h leaf (List.mem_append_left _ hleaf)
    have hbody := read_tree body hbound fun leaf hleaf => h leaf (List.mem_append_right _ hleaf)
    exact read_lambda op hsource hbody

theorem mapM_read_trees (ps : List Predicate) {fuel : Nat}
    (hfuel : Tree.itemsHeight (trees ps) ≤ fuel) (h : ∀ leaf ∈ leavesAll ps, leaf.IsKept) :
    (trees ps).mapM (read fuel) = .ok (mapOperands Value.reloaded ps) := by
  cases ps with
  | nil => rfl
  | cons p ps =>
    obtain ⟨hhead, htail⟩ := Nat.max_le.mp hfuel
    have hread := read_tree p hhead fun leaf hleaf => h leaf (List.mem_append_left _ hleaf)
    have hrest := mapM_read_trees ps htail fun leaf hleaf => h leaf (List.mem_append_right _ hleaf)
    rw [trees, List.mapM_cons, hread, hrest]
    rfl

end

/-- **A filter is read back as it was,** its timestamps as text. -/
theorem ofTree_tree {p : Predicate} (h : ∀ leaf ∈ p.leaves, leaf.IsKept) :
    ofTree p.tree = .ok (p.mapValues Value.reloaded) :=
  read_tree p (Nat.le_refl _) h

end Predicate

end ODataQuery
