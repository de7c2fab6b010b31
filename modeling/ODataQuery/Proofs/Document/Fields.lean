import ODataQuery.Document.Fields
import ODataQuery.Proofs.Outcome

namespace ODataQuery

namespace Tree

/-- A bound on the height of a tree leaves a step to read it. -/
theorem eq_succ_of_height_le {t : Tree} {fuel : Nat} (h : t.height ≤ fuel) : ∃ n, fuel = n + 1 := by
  have hpos : 0 < t.height := by cases t <;> simp [height]
  exact ⟨fuel - 1, by omega⟩

theorem height_lt_object {t : Tree} {name : String} {ms : List (String × Tree)}
    (h : (name, t) ∈ ms) : t.height < (object ms).height := by
  rw [object, height]
  induction ms with
  | nil => cases h
  | cons m ms ih =>
    rw [List.map_cons, membersHeight]
    obtain rfl | h := List.mem_cons.mp h
    · exact Nat.lt_succ_of_le (Nat.le_max_left _ _)
    · exact Nat.lt_of_lt_of_le (ih h) (Nat.succ_le_succ (Nat.le_max_right _ _))

/-- Inside the data of a case the bound is one less. -/
theorem height_le_of_case {t : Tree} {fuel : Nat} {case name : String} {ms : List (String × Tree)}
    (h : (object [(case, object ms)]).height ≤ fuel + 1) (ht : (name, t) ∈ ms) :
    t.height ≤ fuel := by
  have hinner := height_lt_object ht
  have houter := height_lt_object (List.mem_singleton_self (case, object ms))
  omega

@[simp] theorem variant_object (name : String) (t : Tree) :
    (object [(name, t)]).variant = .ok (name, t) := rfl

@[simp] theorem members_object (markup : Markup) (names : List String)
    (ms : List (String × Tree)) :
    (object ms).members markup names = .ok (ms.map fun m => (some m.1, m.2)) := rfl

theorem knownFields_object {names : List String} {ms : List (String × Tree)}
    (hnames : ∀ m ∈ ms, m.1 ∈ names) (hnodup : (ms.map Prod.fst).Nodup) :
    knownFields names (ms.map fun m => (some m.1, m.2)) = .ok ms := by
  induction ms with
  | nil => rfl
  | cons m ms ih =>
    obtain ⟨name, t⟩ := m
    obtain ⟨hname, hnames⟩ := List.forall_mem_cons.mp hnames
    obtain ⟨hfresh, hnodup⟩ := List.nodup_cons.mp hnodup
    have habsent : ms.lookup name = none := by
      rw [List.lookup_eq_none_iff]
      intro m hm
      rw [bne_iff_ne]
      rintro rfl
      exact hfresh (List.mem_map.mpr ⟨m, hm, rfl⟩)
    rw [List.map_cons, knownFields, ih hnames hnodup, ok_bind, if_pos hname, habsent]
    rfl

@[simp] theorem fields_object (markup : Markup) {names : List String} {ms : List (String × Tree)}
    (hnames : ∀ m ∈ ms, m.1 ∈ names) (hnodup : (ms.map Prod.fst).Nodup) :
    (object ms).fields markup names = .ok ms :=
  knownFields_object hnames hnodup

theorem asList_list {α : Type} {read : Tree → Reading α} {write : α → Tree} {as : List α}
    (h : ∀ a ∈ as, read (write a) = .ok a) : asList read (.list (as.map write)) = .ok as := by
  rw [asList, mapM_map_eq_ok h, List.map_id']

/-- The name of a case without data is read as the case. -/
theorem asCase_text {α : Type} (markup : Markup) {ofName? : String → Option α} {name : String}
    {a : α} (h : ofName? name = some a) : (text name).asCase markup ofName? = .ok a := by
  rw [asCase, caseName, ok_bind, h]
  rfl

end Tree

section

variable {α : Type} {fields : List (String × Tree)} {name : String} {t : Tree}
  {read : Tree → Reading α}

@[simp] theorem requiredField_self : requiredField ((name, t) :: fields) name read = read t := by
  rw [requiredField, List.lookup_cons_self]

@[simp] theorem requiredField_of_ne {other : String} (h : name ≠ other) :
    requiredField ((other, t) :: fields) name read = requiredField fields name read := by
  rw [requiredField, List.lookup_cons, beq_false_of_ne h]
  rfl

@[simp] theorem defaultedField_self {absent : α} :
    defaultedField ((name, t) :: fields) name read absent = read t := by
  rw [defaultedField, List.lookup_cons_self]

@[simp] theorem defaultedField_of_ne {other : String} {absent : α} (h : name ≠ other) :
    defaultedField ((other, t) :: fields) name read absent =
      defaultedField fields name read absent := by
  rw [defaultedField, List.lookup_cons, beq_false_of_ne h]
  rfl

end

end ODataQuery
