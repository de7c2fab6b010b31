import ODataQuery.OrderedMap

namespace ODataQuery.OrderedMap

variable {α : Type} {m : OrderedMap α}

theorem mem_keys_insert {key k : String} {value : α} :
    k ∈ (m.insert key value).keys ↔ k ∈ m.keys ∨ k = key := by
  rw [keys_insert]
  split
  · rename_i h
    exact ⟨Or.inl, fun hk => hk.elim id fun heq => heq ▸ h⟩
  · simp

theorem mem_keys_insertAll {entries : List (String × α)} {k : String} :
    k ∈ (m.insertAll entries).keys ↔ k ∈ m.keys ∨ k ∈ entries.map Prod.fst := by
  induction entries generalizing m with
  | nil => simp [insertAll]
  | cons e entries ih =>
    have hstep : m.insertAll (e :: entries) = (m.insert e.1 e.2).insertAll entries := rfl
    rw [hstep, ih, mem_keys_insert, List.map_cons, List.mem_cons, or_assoc]

theorem mem_keys_ofList {entries : List (String × α)} {k : String} :
    k ∈ (ofList entries).keys ↔ k ∈ entries.map Prod.fst := by
  rw [ofList, mem_keys_insertAll]
  exact or_iff_right List.not_mem_nil

theorem putEntry_of_not_mem {key : String} {value : α} {entries : List (String × α)}
    (h : key ∉ entries.map Prod.fst) : putEntry key value entries = entries ++ [(key, value)] := by
  induction entries with
  | nil => rfl
  | cons e entries ih =>
    rw [List.map_cons, List.mem_cons, not_or] at h
    rw [putEntry, if_neg fun heq => h.1 heq.symm, ih h.2, List.cons_append]

theorem entries_insertAll {entries : List (String × α)}
    (hfresh : ∀ e ∈ entries, e.1 ∉ m.keys) (hnodup : (entries.map Prod.fst).Nodup) :
    (m.insertAll entries).entries = m.entries ++ entries := by
  induction entries generalizing m with
  | nil => exact (List.append_nil _).symm
  | cons e entries ih =>
    obtain ⟨he, hrest⟩ := List.forall_mem_cons.mp hfresh
    obtain ⟨hunlike, hnodup⟩ := List.nodup_cons.mp hnodup
    have hinsert : (m.insert e.1 e.2).entries = m.entries ++ [e] := putEntry_of_not_mem he
    have hlater : ∀ e' ∈ entries, e'.1 ∉ (m.insert e.1 e.2).keys := by
      intro e' he' hmem
      obtain hold | heq := mem_keys_insert.mp hmem
      · exact hrest e' he' hold
      · exact hunlike (List.mem_map.mpr ⟨e', he', heq⟩)
    have hstep : m.insertAll (e :: entries) = (m.insert e.1 e.2).insertAll entries := rfl
    rw [hstep, ih hlater hnodup, hinsert, List.append_assoc, List.singleton_append]

theorem ofList_entries (m : OrderedMap α) : ofList m.entries = m := by
  have hentries : (ofList m.entries).entries = m.entries :=
    entries_insertAll (fun _ _ => List.not_mem_nil) m.nodup
  cases m
  exact (OrderedMap.mk.injEq ..).mpr hentries

/-- New keys follow in the order of their first insertions. -/
theorem keys_insertAll (entries : List (String × α)) :
    (m.insertAll entries).keys =
      m.keys ++ ((entries.map Prod.fst).filter (· ∉ m.keys)).eraseDups := by
  induction entries generalizing m with
  | nil => exact (List.append_nil _).symm
  | cons e entries ih =>
    have hstep : m.insertAll (e :: entries) = (m.insert e.1 e.2).insertAll entries := rfl
    rw [hstep, ih, keys_insert, List.map_cons]
    by_cases he : e.1 ∈ m.keys
    · rw [if_pos he, List.filter_cons_of_neg (by simpa using he)]
    · have hrest : (entries.map Prod.fst).filter (· ∉ m.keys ++ [e.1]) =
          ((entries.map Prod.fst).filter (· ∉ m.keys)).filter fun k => !k == e.1 := by
        rw [List.filter_filter]
        apply List.filter_congr
        intro k _
        rw [Bool.eq_iff_iff]
        simp [and_comm]
      rw [if_neg he, List.filter_cons_of_pos (by simpa using he), List.eraseDups_cons, hrest,
        List.append_assoc, List.singleton_append]

theorem keys_ofList (entries : List (String × α)) :
    (ofList entries).keys = (entries.map Prod.fst).eraseDups := by
  have hall : (entries.map Prod.fst).filter (· ∉ (empty : OrderedMap α).keys) =
      entries.map Prod.fst :=
    List.filter_eq_self.mpr fun _ _ => decide_eq_true List.not_mem_nil
  rw [ofList, keys_insertAll, hall]
  rfl

theorem eraseDups_eq_self {names : List String} (h : names.Nodup) : names.eraseDups = names := by
  induction names with
  | nil => rfl
  | cons name names ih =>
    obtain ⟨hname, hnames⟩ := List.nodup_cons.mp h
    have hrest : names.filter (fun k => !k == name) = names := by
      rw [List.filter_eq_self]
      intro k hk
      simpa using ne_of_mem_of_not_mem hk hname
    rw [List.eraseDups_cons, hrest, ih hnames]

/-- Insertions that do not repeat a key follow in their order, as far as they are new. -/
theorem keys_insertAll_of_nodup {entries : List (String × α)}
    (h : (entries.map Prod.fst).Nodup) :
    (m.insertAll entries).keys = m.keys ++ (entries.map Prod.fst).filter (· ∉ m.keys) := by
  rw [keys_insertAll, eraseDups_eq_self (h.filter _)]

theorem lookup_cons_of_ne {key k : String} {value : α} {entries : List (String × α)}
    (h : k ≠ key) : ((key, value) :: entries).lookup k = entries.lookup k := by
  rw [List.lookup_cons, beq_false_of_ne h]

theorem lookup_putEntry (key : String) (value : α) (entries : List (String × α)) (k : String) :
    (putEntry key value entries).lookup k = if k = key then some value else entries.lookup k := by
  by_cases hk : k = key
  · subst hk
    rw [if_pos rfl]
    induction entries with
    | nil => exact List.lookup_cons_self
    | cons e entries ih =>
      obtain ⟨name, old⟩ := e
      by_cases hname : name = k
      · rw [putEntry, if_pos hname, List.lookup_cons_self]
      · rw [putEntry, if_neg hname, lookup_cons_of_ne (Ne.symm hname), ih]
  · rw [if_neg hk]
    induction entries with
    | nil => exact lookup_cons_of_ne hk
    | cons e entries ih =>
      obtain ⟨name, old⟩ := e
      by_cases hname : name = key
      · rw [putEntry, if_pos hname, lookup_cons_of_ne hk, lookup_cons_of_ne (hname ▸ hk)]
      · rw [putEntry, if_neg hname, List.lookup_cons, List.lookup_cons, ih]

theorem get?_insert (key : String) (value : α) (k : String) :
    (m.insert key value).get? k = if k = key then some value else m.get? k :=
  lookup_putEntry key value m.entries k

theorem get?_insertAll_of_not_mem {entries : List (String × α)} {k : String}
    (h : k ∉ entries.map Prod.fst) : (m.insertAll entries).get? k = m.get? k := by
  induction entries generalizing m with
  | nil => rfl
  | cons e entries ih =>
    rw [List.map_cons, List.mem_cons, not_or] at h
    have hstep : m.insertAll (e :: entries) = (m.insert e.1 e.2).insertAll entries := rfl
    rw [hstep, ih h.2, get?_insert, if_neg h.1]

/-- The last insertion under a key decides its value. -/
theorem get?_insertAll_of_last {before later : List (String × α)} {k : String} {value : α}
    (h : k ∉ later.map Prod.fst) :
    (m.insertAll (before ++ (k, value) :: later)).get? k = some value := by
  have hstep : m.insertAll (before ++ (k, value) :: later) =
      ((m.insertAll before).insert k value).insertAll later := List.foldl_append
  rw [hstep, get?_insertAll_of_not_mem h, get?_insert, if_pos rfl]

theorem get?_insertAll_of_mem {entries : List (String × α)} {k : String} {value : α}
    (hnodup : (entries.map Prod.fst).Nodup) (h : (k, value) ∈ entries) :
    (m.insertAll entries).get? k = some value := by
  obtain ⟨before, later, rfl⟩ := List.append_of_mem h
  rw [List.map_append, List.map_cons, List.nodup_append, List.nodup_cons] at hnodup
  exact get?_insertAll_of_last hnodup.2.1.1

theorem mem_entries_of_get? {k : String} {value : α} (h : m.get? k = some value) :
    (k, value) ∈ m.entries := by
  obtain ⟨before, later, hentries, -⟩ := List.lookup_eq_some_iff.mp h
  rw [hentries]
  exact List.mem_append_right _ List.mem_cons_self

end ODataQuery.OrderedMap
