import ODataQuery.Proofs.OrderedMap
import ODataQuery.Proofs.Query.RoundTrip

/-!
# Free parameters among the options

The options of a query are its built-in ones with the free parameters inserted behind them, and
the free parameters are themselves inserted one by one. Through both layers a name keeps the
place of its first call, or of the built-in option that it replaces, and takes the value of its
last call.
-/

namespace ODataQuery.EntityQuery

variable {t : EntityType} {o : CompileOptions}

/-- Set parameters from left to right. -/
def setParameters (q : EntityQuery) (calls : List (String × ParamValue)) : EntityQuery :=
  calls.foldl (fun q call => q.setParameter call.1 call.2) q

theorem setParameters_eq (q : EntityQuery) (calls : List (String × ParamValue)) :
    q.setParameters calls = { q with parameters := q.parameters.insertAll calls } := by
  induction calls generalizing q with
  | nil => rfl
  | cons call calls ih => exact ih (q.setParameter call.1 call.2)

/-- The entries of the free parameters among the options. -/
def parameterEntries (parameters : OrderedMap ParamValue) : List (String × Option ParamValue) :=
  parameters.entries.map fun e => (e.1, some e.2)

theorem map_fst_parameterEntries (parameters : OrderedMap ParamValue) :
    (parameterEntries parameters).map Prod.fst = parameters.keys :=
  List.map_map

/-- Parameters are no part of what can fail; they are inserted behind the other options. -/
theorem options_eq_insertAll (q : EntityQuery) (parameters : OrderedMap ParamValue) :
    { q with parameters }.options t o = ({ q with parameters := .empty }.options t o).map
      fun builtIn : OptionMap => builtIn.insertAll (parameterEntries parameters) := by
  unfold options
  dsimp only
  cases clauseText q.filter (·.render (.root (some t) o.dialect o.maxDepth)) with
  | error e => rfl
  | ok filter =>
    cases clauseText q.orderBy (Clause.orderBy t) with
    | error e => rfl
    | ok order =>
      cases clauseText q.expand (Clause.expand t) with
      | error e => rfl
      | ok expand =>
        cases clauseText q.select (Clause.select t) with
        | error e => rfl
        | ok select => rfl

/-- Without parameters every built-in option is there and no other. -/
theorem keys_options {q : EntityQuery} {builtIn : OptionMap} (hq : q.parameters = .empty)
    (h : q.options t o = .ok builtIn) : builtIn.keys = builtInNames := by
  simp only [options, hq, bind_eq_ok, pure_eq_ok, Except.ok.injEq] at h
  obtain ⟨filter, -, order, -, expand, -, select, -, rfl⟩ := h
  have hnodup : builtInNames.Nodup := by decide
  exact (OrderedMap.keys_ofList _).trans (OrderedMap.eraseDups_eq_self hnodup)

/-- **Parameters keep the first place and the last value.** However often parameters are set,
under whatever names, the options fail as they do without parameters, or they are the built-in
ones in their order and behind them the other names in the order of their first calls. A name
has the value of its last call, and a built-in option that was never called keeps its own. -/
theorem options_setParameters (q : EntityQuery) (hq : q.parameters = .empty)
    (calls : List (String × ParamValue)) (t : EntityType) (o : CompileOptions) :
    (∃ e, q.options t o = .error e ∧ (q.setParameters calls).options t o = .error e) ∨
    ∃ builtIn options, q.options t o = .ok builtIn ∧
      (q.setParameters calls).options t o = .ok options ∧
      options.keys.Nodup ∧
      options.keys = builtInNames ++ (calls.map Prod.fst).eraseDups.filter (· ∉ builtInNames) ∧
      (∀ before name value later, calls = before ++ (name, value) :: later →
        name ∉ later.map Prod.fst → options.get? name = some (some value)) ∧
      builtIn.keys = builtInNames ∧
      ∀ name ∈ builtInNames, name ∉ calls.map Prod.fst →
        options.get? name = builtIn.get? name := by
  have hsame : { q with parameters := .empty } = q := by rw [← hq]
  have hset : q.setParameters calls = { q with parameters := .ofList calls } := by
    rw [setParameters_eq, hq, OrderedMap.ofList]
  have hoptions := options_eq_insertAll (t := t) (o := o) q (.ofList calls)
  rw [← hset, hsame] at hoptions
  cases hbuiltIn : q.options t o with
  | error e =>
    rw [hbuiltIn] at hoptions
    exact .inl ⟨e, rfl, hoptions⟩
  | ok builtIn =>
    rw [hbuiltIn] at hoptions
    have hbuiltInKeys := keys_options hq hbuiltIn
    have hnames := map_fst_parameterEntries (.ofList calls)
    have hnodup : ((parameterEntries (.ofList calls)).map Prod.fst).Nodup :=
      hnames ▸ (OrderedMap.ofList calls).nodup
    refine .inr ⟨builtIn, _, rfl, hoptions, OrderedMap.nodup _, ?_, ?_, hbuiltInKeys, ?_⟩
    · rw [OrderedMap.keys_insertAll_of_nodup hnodup, hnames, hbuiltInKeys, OrderedMap.keys_ofList]
    · rintro before name value later rfl hlast
      have hvalue : (OrderedMap.ofList (before ++ (name, value) :: later)).get? name = some value :=
        OrderedMap.get?_insertAll_of_last hlast
      exact OrderedMap.get?_insertAll_of_mem hnodup
        (List.mem_map_of_mem (OrderedMap.mem_entries_of_get? hvalue))
    · intro name _ huncalled
      apply OrderedMap.get?_insertAll_of_not_mem
      rwa [hnames, OrderedMap.keys_ofList, List.mem_eraseDups]

/-- The first five orders. -/
def firstOrders : EntityQuery where
  resource := "Orders"
  take := some 5

/-- A name set twice around one that replaces a built-in option and one that fills an absent
one. -/
def repeatedCalls : List (String × ParamValue) :=
  [("tag", .scalar "a"), ("$top", .scalar "9"), ("lang", .scalar "en"), ("$select", .scalar "id"),
    ("tag", .list ["b", "c"])]

theorem options_repeatedCalls : firstOrders.parameters = .empty ∧ ∃ options,
    (firstOrders.setParameters repeatedCalls).options (.anonymous .none) {} = .ok options ∧
      options.keys = ["$filter", "$orderby", "$skip", "$top", "$expand", "$select", "$count", "tag",
        "lang"] ∧
      options.get? "tag" = some (some (.list ["b", "c"])) ∧
      options.get? "$top" = some (some (.scalar "9")) ∧
      options.get? "$skip" = some none := by
  obtain ⟨own, hown, hskip⟩ : ∃ own, firstOrders.options (.anonymous .none) {} = .ok own ∧
      own.get? "$skip" = some none := ⟨_, rfl, rfl⟩
  obtain ⟨e, herror, -⟩ | ⟨builtIn, options, hbuiltIn, hoptions, -, hkeys, hlast, -, hkept⟩ :=
    options_setParameters firstOrders rfl repeatedCalls (.anonymous .none) {}
  · rw [hown] at herror
    cases herror
  · obtain rfl := Except.ok.inj (hown.symm.trans hbuiltIn)
    refine ⟨rfl, options, hoptions, hkeys.trans (by decide), ?_, ?_, ?_⟩
    · exact hlast (repeatedCalls.take 4) "tag" _ [] rfl (by decide)
    · exact hlast (repeatedCalls.take 1) "$top" _ (repeatedCalls.drop 2) rfl (by decide)
    · rw [hkept "$skip" (by decide) (by decide), hskip]

end ODataQuery.EntityQuery
