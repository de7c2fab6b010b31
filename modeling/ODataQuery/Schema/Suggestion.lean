import ODataQuery.Text.EditDistance

namespace ODataQuery.Suggestion

/-- How many edits a name may be away: none when it is short, two from three
bytes on, three from six. -/
def threshold (name : String) : Nat :=
  if name.utf8ByteSize ≤ 2 then 0 else if name.utf8ByteSize ≤ 5 then 2 else 3

/-- The nearer of a name and the best of those after it. -/
def closest? (name : String) : List String → Option (Nat × String)
  | [] => none
  | c :: cs =>
    let d := Text.editDistance name c
    match closest? name cs with
    | some (d', c') => if d ≤ d' then some (d, c) else some (d', c')
    | none => some (d, c)

/-- The closest name, if it is close enough, and of equally close ones the first. -/
def suggest? (name : String) (candidates : List String) : Option String :=
  (closest? name candidates).bind fun (d, c) => if d ≤ threshold name then some c else none

end ODataQuery.Suggestion
