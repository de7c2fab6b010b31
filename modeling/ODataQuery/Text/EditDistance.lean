namespace ODataQuery.Text

/-- The distances from `a :: as` to each prefix of `bs`, from those of `as`:
`corner` and `row` hold the row above, `left` the last entry of this row. -/
def distanceRow (a : Char) (left corner : Nat) : List Char → List Nat → List Nat
  | b :: bs, above :: row =>
    let here := min (min (left + 1) (above + 1)) (corner + if a = b then 0 else 1)
    here :: distanceRow a here above bs row
  | _, _ => []

/-- The table's rows for longer and longer prefixes of the first text. -/
def distanceRows (bs : List Char) (first : Nat) (row : List Nat) : List Char → Nat
  | [] => row.getLast?.getD first
  | a :: as => distanceRows bs (first + 1) (distanceRow a (first + 1) first bs row) as

/-- The least number of single-character insertions, deletions and replacements that turn one
text into the other. -/
def editDistance (s t : String) : Nat :=
  distanceRows t.toList 0 (List.range' 1 t.toList.length) s.toList

end ODataQuery.Text
