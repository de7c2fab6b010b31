import ODataQuery.Document.Query
import ODataQuery.Proofs.Calendar.Timestamp
import ODataQuery.Proofs.Filter.Rendering
import ODataQuery.Proofs.Number.Numeral

namespace ODataQuery

namespace Value

mutual

/-- The scalars of a value, from left to right. -/
def atoms : Value → List Value
  | .list items => atomsAll items
  | v => [v]

def atomsAll : List Value → List Value
  | [] => []
  | v :: vs => v.atoms ++ atomsAll vs

end

mutual

/-- What a document makes of a value: a timestamp comes back as its text. -/
def reloaded : Value → Value
  | .timestamp t => .string t.localText
  | .list items => .list (reloadedAll items)
  | v => v

def reloadedAll : List Value → List Value
  | [] => []
  | v :: vs => v.reloaded :: reloadedAll vs

end

mutual

theorem ofTree_tree (v : Value) (h : ∀ x, .float x ∉ v.atoms) : ofTree v.tree = .ok v.reloaded := by
  cases v with
  | null => rfl
  | bool b => rfl
  | int n =>
    rw [tree, ofTree, if_pos (Integer.isWord_toInt n), Int64.ofInt_toInt]
    rfl
  | float x => exact absurd List.mem_cons_self (h x)
  | string s => rfl
  | list items =>
    rw [tree, ofTree, ofTrees_trees items h]
    rfl
  | timestamp t => rfl

theorem ofTrees_trees (vs : List Value) (h : ∀ x, .float x ∉ atomsAll vs) :
    ofTrees (trees vs) = .ok (reloadedAll vs) := by
  cases vs with
  | nil => rfl
  | cons v vs =>
    have hhead := ofTree_tree v fun x hx => h x (List.mem_append_left _ hx)
    have htail := ofTrees_trees vs fun x hx => h x (List.mem_append_right _ hx)
    rw [trees, ofTrees, hhead, htail]
    rfl

end

theorem mem_atomsAll {v atom : Value} {vs : List Value} (hv : v ∈ vs) (h : atom ∈ v.atoms) :
    atom ∈ atomsAll vs := by
  induction vs with
  | nil => cases hv
  | cons w vs ih =>
    rw [atomsAll]
    obtain rfl | hv := List.mem_cons.mp hv
    · exact List.mem_append_left _ h
    · exact List.mem_append_right _ (ih hv)

theorem reloadedAll_eq_map (vs : List Value) : reloadedAll vs = vs.map reloaded := by
  induction vs with
  | nil => rfl
  | cons v vs ih => rw [reloadedAll, ih, List.map_cons]

mutual

theorem reloaded_eq_self (v : Value) (h : ∀ t, .timestamp t ∉ v.atoms) : v.reloaded = v := by
  cases v with
  | timestamp t => exact absurd List.mem_cons_self (h t)
  | list items => rw [reloaded, reloadedAll_eq_self items h]
  | null | bool | int | float | string => rfl

theorem reloadedAll_eq_self (vs : List Value) (h : ∀ t, .timestamp t ∉ atomsAll vs) :
    reloadedAll vs = vs := by
  cases vs with
  | nil => rfl
  | cons v vs =>
    have hhead := reloaded_eq_self v fun t ht => h t (List.mem_append_left _ ht)
    have htail := reloadedAll_eq_self vs fun t ht => h t (List.mem_append_right _ ht)
    rw [reloadedAll, hhead, htail]

end

/-- Its timestamps stand in a literal of a date type, each with a local year of four digits. -/
def IsDated (type : DataType) (v : Value) : Prop :=
  ∀ t, .timestamp t ∈ v.atoms → type.isDate ∧ 0 ≤ t.localYear ∧ t.localYear ≤ 9999

end Value

namespace DataType

variable {type : DataType} {v : Value}

/-- A date type reads the text of a timestamp again, and a list has no form in any type. -/
theorem literal_reloaded (h : v.IsDated type) :
    PassAlike (type.literal v) (type.literal v.reloaded) := by
  cases v with
  | timestamp t =>
    obtain ⟨hdate, hyear⟩ := h t List.mem_cons_self
    have hparse := Timestamp.parse?_localText hyear
    simp only [Value.reloaded, literal, if_pos hdate, timestamp, hparse]
    exact congruent_passAlike.refl _
  | list items =>
    obtain ⟨e, he⟩ := type.literal_list items
    obtain ⟨e', he'⟩ := type.literal_list (Value.reloadedAll items)
    intro text
    rw [Value.reloaded, he, he']
    exact iff_of_false nofun nofun
  | null | bool | int | float | string => exact congruent_passAlike.refl _

theorem literalFragment_reloaded (h : v.IsDated type) :
    PassAlike (Expr.literalFragment type v) (Expr.literalFragment type v.reloaded) := by
  cases v with
  | list items =>
    rw [Value.reloaded, Value.reloadedAll_eq_map]
    simp only [Expr.literalFragment, List.mapM_map]
    refine congruent_passAlike.then_same (congruent_passAlike.mapM fun v hv => ?_) _
    exact literal_reloaded fun t ht => h t (Value.mem_atomsAll hv ht)
  | timestamp t => exact congruent_passAlike.then_same (literal_reloaded h) _
  | null | bool | int | float | string => exact congruent_passAlike.refl _

end DataType

end ODataQuery
