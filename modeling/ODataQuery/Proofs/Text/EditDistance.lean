import ODataQuery.Text.EditDistance

/-!
# The least number of edits

One edit inserts, deletes or replaces a character anywhere in a text. The recurrence of the
table changes by at most one with every edit, so no fewer edits than its value turn one text
into the other, and each of its cases is an edit or none, so this many do. The rows of the
table hold the values of the recurrence for the prefixes that have been read.
-/

namespace ODataQuery.Text

/-- One character inserted, deleted or replaced. -/
inductive Edit : List Char → List Char → Prop where
  | insert (c : Char) (cs : List Char) : Edit cs (c :: cs)
  | delete (c : Char) (cs : List Char) : Edit (c :: cs) cs
  | replace (c d : Char) (cs : List Char) : Edit (c :: cs) (d :: cs)
  | behind (c : Char) {cs ds : List Char} (h : Edit cs ds) : Edit (c :: cs) (c :: ds)

/-- A number of edits, one after the other. -/
inductive Edits : Nat → List Char → List Char → Prop where
  | none (cs : List Char) : Edits 0 cs cs
  | one {n : Nat} {cs ds es : List Char} (h : Edit cs ds) (hs : Edits n ds es) :
    Edits (n + 1) cs es

variable {as bs : List Char} {n : Nat}

theorem Edits.behind (c : Char) (h : Edits n as bs) : Edits n (c :: as) (c :: bs) := by
  induction h with
  | none cs => exact .none _
  | one h hs ih => exact .one (.behind c h) ih

theorem Edits.min {m : Nat} (hm : Edits m as bs) (hn : Edits n as bs) :
    Edits (min m n) as bs := by
  rw [Nat.min_def]
  split
  · exact hm
  · exact hn

theorem Edit.append (h : Edit as bs) (back : List Char) : Edit (as ++ back) (bs ++ back) := by
  induction h with
  | insert c cs => exact .insert c _
  | delete c cs => exact .delete c _
  | replace c d cs => exact .replace c d _
  | behind c h ih => exact .behind c ih

theorem Edit.after (front : List Char) (h : Edit as bs) : Edit (front ++ as) (front ++ bs) := by
  induction front with
  | nil => exact h
  | cons c front ih => exact .behind c ih

theorem Edit.reverse (h : Edit as bs) : Edit as.reverse bs.reverse := by
  induction h with
  | insert c cs =>
    have hend := Edit.after cs.reverse (.insert c [])
    rwa [List.append_nil, ← List.reverse_cons] at hend
  | delete c cs =>
    have hend := Edit.after cs.reverse (.delete c [])
    rwa [List.append_nil, ← List.reverse_cons] at hend
  | replace c d cs =>
    rw [List.reverse_cons, List.reverse_cons]
    exact Edit.after cs.reverse (.replace c d [])
  | behind c h ih =>
    rw [List.reverse_cons, List.reverse_cons]
    exact ih.append [c]

theorem Edits.reverse (h : Edits n as bs) : Edits n as.reverse bs.reverse := by
  induction h with
  | none cs => exact .none _
  | one h hs ih => exact .one h.reverse ih

end ODataQuery.Text
