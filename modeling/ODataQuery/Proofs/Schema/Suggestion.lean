import ODataQuery.Proofs.Schema.Navigation
import ODataQuery.Proofs.Text.EditDistance

namespace ODataQuery

namespace Suggestion

variable {name suggestion : String} {candidates : List String}

/-- A candidate that fewer edits separate from a name than any before it, and no more edits
than any behind it. -/
structure IsFirstClosest (name : String) (candidates : List String) (edits : Nat)
    (suggestion : String) : Prop where
  reached : Text.Edits edits name.toList suggestion.toList
  splits : ∃ front back, candidates = front ++ suggestion :: back ∧
    (∀ other ∈ front, ∀ n, Text.Edits n name.toList other.toList → edits < n) ∧
    ∀ other ∈ suggestion :: back, ∀ n, Text.Edits n name.toList other.toList → edits ≤ n

theorem IsFirstClosest.mem {edits : Nat} (h : IsFirstClosest name candidates edits suggestion) :
    suggestion ∈ candidates := by
  obtain ⟨-, front, back, rfl, -, -⟩ := h
  exact List.mem_append_right front List.mem_cons_self

theorem IsFirstClosest.le {edits : Nat} (h : IsFirstClosest name candidates edits suggestion)
    {other : String} (hother : other ∈ candidates) {n : Nat}
    (hn : Text.Edits n name.toList other.toList) : edits ≤ n := by
  obtain ⟨-, front, back, rfl, hfront, hback⟩ := h
  obtain hother | hother := List.mem_append.mp hother
  · exact Nat.le_of_lt (hfront other hother n hn)
  · exact hback other hother n hn

end Suggestion

namespace Schema

variable {s : Schema} {d : TypeDefinition} {segment : String}

variable {before : List String} {infos : List PropertyInfo} {e : TypeDefinition}

end Schema

namespace EntityType

end EntityType

end ODataQuery
