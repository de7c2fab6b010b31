import ODataQuery.Proofs.Outcome
import ODataQuery.Proofs.Text.Blank
import ODataQuery.Proofs.Text.Segment
import ODataQuery.Uri

namespace ODataQuery

open Text (isBlank)

namespace Uri

/-- A URI that is a path alone, or a path with option text behind a `?`. -/
structure Carries (uri path : String) (options : List (String × String)) : Prop where
  no_mark : '?' ∉ path.toList
  form : (uri = path ∧ options = []) ∨
    ∃ query, uri = path ++ "?" ++ query ∧ QueryOptions.parse query = .ok options

theorem parse_of_carries {uri path : String} {options : List (String × String)}
    (h : Carries uri path options) (htrim : Text.strip isBlank uri.toList = uri.toList) :
    parse uri = .ok ⟨path, options⟩ := by
  rcases h.form with ⟨rfl, rfl⟩ | ⟨query, rfl, hquery⟩
  · simp only [parse, htrim, Text.takeWhile_ne_eq_self h.no_mark, Text.dropWhile_ne_eq_nil h.no_mark,
      String.ofList_toList, pure_eq_ok]
  · have hlist : (path ++ "?" ++ query).toList = path.toList ++ '?' :: query.toList := by simp
    rw [hlist] at htrim
    simp only [parse, hlist, htrim, Text.takeWhile_ne_append h.no_mark,
      Text.dropWhile_ne_append h.no_mark, String.ofList_toList, hquery, ok_bind, pure_eq_ok]

/-- A resource behind a base: the base without the slashes at its end, one slash,
and the path without the slashes at its start. -/
def IsPlaced (base : Option String) (path resource : String) : Prop :=
  match base with
  | none => resource = path
  | some base => ∃ stem rest : List Char, ∃ m n : Nat,
      base.toList = stem ++ List.replicate m '/' ∧ stem.getLast? ≠ some '/' ∧
      path.toList = List.replicate n '/' ++ rest ∧ rest.head? ≠ some '/' ∧
      resource.toList = stem ++ '/' :: rest

theorem takeWhile_slash (cs : List Char) :
    cs.takeWhile (· == '/') = List.replicate (cs.takeWhile (· == '/')).length '/' := by
  rw [List.eq_replicate_iff]
  refine ⟨rfl, fun c hc => ?_⟩
  simpa using List.all_eq_true.mp List.all_takeWhile c hc

theorem head?_dropWhile_slash (cs : List Char) : (cs.dropWhile (· == '/')).head? ≠ some '/' := by
  intro h
  have hne := List.head?_dropWhile_not (· == '/') cs
  rw [h] at hne
  simp at hne

theorem isPlaced_joinBase (base : Option String) (path : String) :
    IsPlaced base path (joinBase base path) := by
  cases base with
  | none => rfl
  | some base =>
    refine ⟨(base.toList.reverse.dropWhile (· == '/')).reverse, path.toList.dropWhile (· == '/'),
      (base.toList.reverse.takeWhile (· == '/')).length, (path.toList.takeWhile (· == '/')).length,
      ?_, ?_, ?_, head?_dropWhile_slash _, by simp [joinBase]⟩
    · rw [← List.reverse_replicate, ← takeWhile_slash, ← List.reverse_append,
        List.takeWhile_append_dropWhile, List.reverse_reverse]
    · rw [List.getLast?_reverse]
      exact head?_dropWhile_slash _
    · rw [← takeWhile_slash, List.takeWhile_append_dropWhile]

section

variable {base uri path : String} {options : List (String × String)}

theorem toList_joinBase : (joinBase (some base) uri).toList =
    (base.toList.reverse.dropWhile (· == '/')).reverse ++ '/' :: uri.toList.dropWhile (· == '/') := by
  simp [joinBase]

/-- The slashes that are dropped stand in the path, even when it has nothing else. -/
theorem joinBase_append_query (query : String) :
    joinBase (some base) (path ++ "?" ++ query) = joinBase (some base) path ++ "?" ++ query := by
  have hdrop : (path.toList ++ '?' :: query.toList).dropWhile (· == '/') =
      path.toList.dropWhile (· == '/') ++ '?' :: query.toList := by
    rw [List.dropWhile_append]
    split
    · rename_i h
      rw [List.isEmpty_iff.mp h]
      simp
    · rfl
  rw [← String.toList_inj]
  simp [joinBase, hdrop]

theorem carries_joinBase (h : Carries uri path options) (hbase : '?' ∉ base.toList) :
    Carries (joinBase (some base) uri) (joinBase (some base) path) options := by
  refine ⟨?_, ?_⟩
  · rw [toList_joinBase, List.mem_append, List.mem_cons, List.mem_reverse]
    rintro (hstem | heq | hrest)
    · exact hbase (List.mem_reverse.mp ((List.dropWhile_sublist _).subset hstem))
    · exact absurd heq (by decide)
    · exact h.no_mark ((List.dropWhile_sublist _).subset hrest)
  · rcases h.form with ⟨rfl, hnil⟩ | ⟨query, rfl, hquery⟩
    · exact .inl ⟨rfl, hnil⟩
    · exact .inr ⟨query, joinBase_append_query query, hquery⟩

theorem strip_joinBase (hfirst : ∀ c ∈ base.toList.head?, isBlank c = false)
    (hlast : ∀ c ∈ uri.toList.getLast?, isBlank c = false) :
    Text.strip isBlank (joinBase (some base) uri).toList = (joinBase (some base) uri).toList := by
  rw [Text.strip_eq_self_iff, toList_joinBase]
  constructor
  · -- the stem is the beginning of the base
    intro c hc
    rw [List.head?_append] at hc
    rcases Option.or_eq_some_iff.mp hc with hstem | ⟨-, hslash⟩
    · have hsplit := List.takeWhile_append_dropWhile (p := (· == '/')) (l := base.toList.reverse)
      rw [List.reverse_eq_iff.symm, List.reverse_append] at hsplit
      refine hfirst c ?_
      rw [← hsplit, List.head?_append, hstem]
      rfl
    · have hc : c = '/' := by simpa using hslash.symm
      exact hc ▸ by decide
  · intro c hc
    have hsplit := List.takeWhile_append_dropWhile (p := (· == '/')) (l := uri.toList)
    rw [List.getLast?_append, List.getLast?_cons, Option.some_or, Option.mem_some_iff] at hc
    cases hrest : (uri.toList.dropWhile (· == '/')).getLast? with
    | none =>
      rw [hrest] at hc
      exact hc ▸ by decide
    | some d =>
      rw [hrest] at hc
      refine hlast c ?_
      rw [← hsplit, List.getLast?_append, hrest]
      exact congrArg some hc

end

end Uri

end ODataQuery
