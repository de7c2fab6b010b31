import ODataQuery.Proofs.Document.Filter
import ODataQuery.Proofs.OrderedMap
import ODataQuery.Proofs.Query.Congruence

/-!
# A query means the same after it was saved

Every field of a query is read back as it was written, but for the timestamps in its filter,
which come back as text. In a literal of a date type that text is read again when the filter
is rendered, and spells the same timestamp, so the query compiles as before.
-/

namespace ODataQuery

theorem Tree.asCount_toNat (n : UInt64) : asCount (.int n.toNat) = .ok n := by
  have hlt := n.toNat_lt
  rw [asCount, if_pos (by omega), Int.toNat_natCast, UInt64.ofNat_toNat]

theorem OrderItem.ofTree_tree {item : OrderItem} (h : ∃ s, item.path = .parse s) :
    ofTree item.tree = .ok item := by
  have hpath := PropertyPath.ofTree_tree h
  simp [ofTree, tree, hpath, Tree.asBool]

namespace ParamValue

theorem isWhole_tree (value : ParamValue) : value.tree.isWhole := by
  cases value with
  | scalar text => rfl
  | list texts =>
    rw [tree, Tree.isWhole]
    induction texts with
    | nil => rfl
    | cons text texts ih => exact ih

theorem ofTree_tree (value : ParamValue) : ofTree value.tree = .ok value := by
  have hwhole := value.isWhole_tree
  cases value with
  | scalar text => rfl
  | list texts =>
    have htexts : (texts.map Tree.text).mapM scalarText = .ok (texts.map id) :=
      mapM_map_eq_ok fun _ _ => rfl
    rw [List.map_id] at htexts
    rw [tree] at hwhole ⊢
    simp only [ofTree, hwhole, ↓reduceIte, htexts, ok_bind, pure_eq_ok]

end ParamValue

/-- Members that are read one after the other are inserted in their order. -/
theorem foldlM_insert {α : Type} {write : α → Tree}
    {step : OrderedMap α → Option String × Tree → Reading (OrderedMap α)}
    (h : ∀ map name value, step map (some name, write value) = .ok (map.insert name value))
    (entries : List (String × α)) (start : OrderedMap α) :
    ((entries.map fun e => (e.1, write e.2)).map fun m => (some m.1, m.2)).foldlM step start =
      .ok (start.insertAll entries) := by
  induction entries generalizing start with
  | nil => rfl
  | cons e entries ih =>
    rw [List.map_cons, List.map_cons, List.foldlM_cons, h, ok_bind]
    exact ih (start.insert e.1 e.2)

theorem readParameters_object (m : OrderedMap ParamValue) :
    readParameters (.object (m.entries.map fun e => (e.1, e.2.tree))) = .ok m := by
  rw [Tree.object, readParameters, foldlM_insert]
  · exact congrArg Except.ok m.ofList_entries
  · intro map name value
    simp only [ParamValue.ofTree_tree, ok_bind, pure_eq_ok]

namespace EntityQuery

theorem asOption_optionTree {α β : Type} {read : Tree → Reading β} {write : α → Tree}
    {f : α → β} {a : Option α} (h : ∀ x ∈ a, write x ≠ .null ∧ read (write x) = .ok (f x)) :
    (optionTree write a).asOption read = .ok (a.map f) := by
  cases a with
  | none => rfl
  | some x =>
    obtain ⟨hsome, hread⟩ := h x rfl
    rw [optionTree, Tree.asOption, hread]
    · rfl
    · exact hsome

theorem readFields_nil (seen : List String) (q : EntityQuery) : readFields seen q [] = .ok q := rfl

theorem readFields_cons {seen : List String} {q : EntityQuery} {name : String} {t : Tree}
    {ms : List (Option String × Tree)} (h : name ∉ seen) :
    readFields seen q ((some name, t) :: ms) =
      q.readField name t >>= fun q => readFields (name :: seen) q ms := by
  rw [readFields, if_neg fun hseen => h hseen.1]

/-- A clause of several items. -/
theorem asOption_list {α : Type} {read : Tree → Reading α} {write : α → Tree}
    {clause : Option (List α)} (h : ∀ a ∈ clause.getD [], read (write a) = .ok a) :
    (optionTree (fun as => .list (as.map write)) clause).asOption (Tree.asList read) =
      .ok clause := by
  rw [asOption_optionTree (f := id)]
  · rw [Option.map_id, id]
  · rintro as ⟨⟩
    exact ⟨by simp, Tree.asList_list h⟩

variable {q : EntityQuery}

/-- The leaves of the filter. -/
def leaves (q : EntityQuery) : List Expr := (q.filter.map Predicate.leaves).getD []

/-- The paths outside the filter. -/
def clausePaths (q : EntityQuery) : List PropertyPath :=
  (q.orderBy.getD []).map (·.path) ++ q.expand.getD [] ++ q.select.getD []

/-- The query with each timestamp of its filter as text. -/
def reloaded (q : EntityQuery) : EntityQuery :=
  { q with filter := q.filter.map (·.mapValues Value.reloaded) }

theorem asOption_filter {filter : Option Predicate}
    (h : ∀ p ∈ filter, ∀ leaf ∈ p.leaves, leaf.IsKept) :
    (optionTree Predicate.tree filter).asOption Predicate.ofTree =
      .ok (filter.map (·.mapValues Value.reloaded)) := by
  apply asOption_optionTree
  intro p hp
  have hrecord : p.tree ≠ .null := by cases p <;> simp [Predicate.tree, Tree.object]
  exact ⟨hrecord, Predicate.ofTree_tree (h p hp)⟩

theorem asOption_count (n : Option UInt64) :
    (optionTree (fun n => .int n.toNat) n).asOption Tree.asCount = .ok n := by
  rw [asOption_optionTree (f := id)]
  · rw [Option.map_id, id]
  · rintro n ⟨⟩
    exact ⟨by simp, Tree.asCount_toNat n⟩

/-- **A query is read back as it was,** the timestamps of its filter as text. -/
theorem ofTree_tree (hpaths : ∀ path ∈ q.clausePaths, ∃ s, path = .parse s)
    (hleaves : ∀ leaf ∈ q.leaves, leaf.IsKept) : ofTree q.tree = .ok q.reloaded := by
  have hfilter : (optionTree Predicate.tree q.filter).asOption Predicate.ofTree =
      .ok q.reloaded.filter := by
    apply asOption_filter
    rintro p hp
    rw [leaves, hp] at hleaves
    exact hleaves
  have horder : (optionTree (fun items => .list (items.map OrderItem.tree)) q.orderBy).asOption
      (Tree.asList OrderItem.ofTree) = .ok q.orderBy := by
    apply asOption_list
    intro item hitem
    apply OrderItem.ofTree_tree
    exact hpaths item.path
      (List.mem_append_left _ (List.mem_append_left _ (List.mem_map_of_mem hitem)))
  have hexpand : (optionTree (fun paths => .list (paths.map PropertyPath.tree)) q.expand).asOption
      (Tree.asList PropertyPath.ofTree) = .ok q.expand := by
    apply asOption_list
    intro path hpath
    apply PropertyPath.ofTree_tree
    exact hpaths path (List.mem_append_left _ (List.mem_append_right _ hpath))
  have hselect : (optionTree (fun paths => .list (paths.map PropertyPath.tree)) q.select).asOption
      (Tree.asList PropertyPath.ofTree) = .ok q.select := by
    apply asOption_list
    intro path hpath
    apply PropertyPath.ofTree_tree
    exact hpaths path (List.mem_append_right _ hpath)
  rw [ofTree, tree, Tree.members_object, ok_bind]
  simp [readFields_cons, readFields_nil, readField, Tree.asText, Tree.asBool,
    hfilter, horder, hexpand, hselect, asOption_count, readParameters_object, reloaded]

theorem reloaded_eq_self (h : ∀ type v, .literal type v ∈ q.leaves → ∀ t, .timestamp t ∉ v.atoms) :
    q.reloaded = q := by
  have hfilter : q.filter.map (·.mapValues Value.reloaded) = q.filter := by
    cases hq : q.filter with
    | none => rfl
    | some p =>
      rw [leaves, hq] at h
      exact congrArg some (p.mapValues_eq_self fun type v hv => v.reloaded_eq_self (h type v hv))
  rw [reloaded, hfilter]

/-- The text of a date spells the date wherever the query is compiled. -/
theorem compile_reloaded (h : ∀ type v, .literal type v ∈ q.leaves → v.IsDated type) (r : Resolver)
    (o : CompileOptions) : PassAlike (q.compile r o) (q.reloaded.compile r o) := by
  have hfilter (t : EntityType) :
      PassAlike (clauseText q.filter (·.render (.root (some t) o.dialect o.maxDepth)))
        (clauseText (q.filter.map (·.mapValues Value.reloaded))
          (·.render (.root (some t) o.dialect o.maxDepth))) := by
    cases hq : q.filter with
    | none => exact congruent_passAlike.refl _
    | some p =>
      rw [leaves, hq] at h
      refine congruent_passAlike.then_same ?_ _
      apply p.render_mapValues congruent_passAlike
      exact fun type v hv => DataType.literalFragment_reloaded (h type v hv)
  apply compile_congr congruent_passAlike
  apply options_congr congruent_passAlike
  · exact hfilter _
  · exact fun _ _ => congruent_passAlike.refl _
  · exact fun _ _ => congruent_passAlike.refl _
  · exact fun _ _ => congruent_passAlike.refl _

/-- **A saved query means the same after it is loaded.** It loads when its paths were read
from text and its literals hold no double; it is the same query unless it holds timestamps,
and it compiles alike when those stand in date literals. -/
theorem exists_ofTree_tree (hpaths : ∀ path ∈ q.clausePaths, ∃ s, path = .parse s)
    (hleaves : ∀ leaf ∈ q.leaves, leaf.IsKept)
    (hdates : ∀ type v, .literal type v ∈ q.leaves → v.IsDated type) :
    ∃ q', ofTree q.tree = .ok q' ∧
      ((∀ type v, .literal type v ∈ q.leaves → ∀ t, .timestamp t ∉ v.atoms) → q' = q) ∧
      ∀ r o uri, q'.compile r o = .ok uri ↔ q.compile r o = .ok uri :=
  ⟨q.reloaded, ofTree_tree hpaths hleaves, reloaded_eq_self,
    fun r o uri => (compile_reloaded hdates r o uri).symm⟩

/-- Noon of the first of March 2024, two hours east of Greenwich. -/
def noon : Timestamp := ⟨⟨1064522040, ⟨30, by decide⟩, ⟨250000000, by decide⟩⟩, 120, by decide⟩

/-- Orders placed since then, by the name of their buyer. -/
def placedSince : EntityQuery where
  resource := "Orders"
  filter := some (.binary .ge (.property (.parse "placed"))
    (.literal .dateTimeOffset (.timestamp noon)))
  orderBy := some [⟨.parse "buyer . name", true⟩]

def placedSinceUri : String :=
  "Orders?$filter=placed%20ge%202024-03-01T10%3A00%3A30.250Z&$orderby=buyer%2Fname%20desc"

theorem exists_ofTree_placedSince :
    (∀ path ∈ placedSince.clausePaths, ∃ s, path = .parse s) ∧
    (∀ leaf ∈ placedSince.leaves, leaf.IsKept) ∧
    (∀ type v, .literal type v ∈ placedSince.leaves → v.IsDated type) ∧
    placedSince.compile (.absent .none) {} = .ok placedSinceUri ∧
    ∃ q', ofTree placedSince.tree = .ok q' ∧
      q'.compile (.absent .none) {} = .ok placedSinceUri := by
  have hpaths : ∀ path ∈ placedSince.clausePaths, ∃ s, path = .parse s := by
    intro path hpath
    obtain rfl := List.mem_singleton.mp hpath
    exact ⟨_, rfl⟩
  have hshape : placedSince.leaves = [.property (.parse "placed"),
      .literal .dateTimeOffset (.timestamp noon)] := rfl
  have hleaves : ∀ leaf ∈ placedSince.leaves, leaf.IsKept := by
    rw [hshape, List.forall_mem_cons, List.forall_mem_singleton]
    exact ⟨⟨_, rfl⟩, by simp [Expr.IsKept, Value.atoms]⟩
  have hdates : ∀ type v, .literal type v ∈ placedSince.leaves → v.IsDated type := by
    intro type v hv t ht
    obtain ⟨rfl, rfl⟩ : type = .dateTimeOffset ∧ v = .timestamp noon := by simpa [hshape] using hv
    obtain rfl : t = noon := by simpa [Value.atoms] using ht
    decide
  have hcompile : placedSince.compile (.absent .none) {} = .ok placedSinceUri := by rfl
  obtain ⟨q', hload, -, hsame⟩ := exists_ofTree_tree hpaths hleaves hdates
  exact ⟨hpaths, hleaves, hdates, hcompile, q', hload, (hsame _ _ _).mpr hcompile⟩

end EntityQuery

end ODataQuery
