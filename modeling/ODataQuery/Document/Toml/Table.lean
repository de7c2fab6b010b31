import ODataQuery.Document.Tree

/-!
# TOML tables

A table is built entry by entry. It remembers how it came to be, because that
decides what may still be added: a header defines a table once, a dotted key
extends only tables made by dotted keys, and a header may still define a table
that was only passed through by a longer header.
-/

namespace ODataQuery.Toml

/-- How a table came to be. -/
inductive Origin where
  /-- By its own header, as a row of an array of tables, or as the document. -/
  | header
  /-- On the way of a longer header. -/
  | passage
  /-- On the way of a dotted key. -/
  | dottedKey
  deriving DecidableEq, Repr

inductive Node where
  /-- A value to which nothing can be added. -/
  | value (t : Tree)
  | table (origin : Origin) (entries : List (String × Node))
  /-- An array of tables, to whose last row headers and keys add. -/
  | rows (tables : List (List (String × Node)))

abbrev Entries := List (String × Node)

namespace Entries

def replace (name : String) (node : Node) (entries : Entries) : Entries :=
  entries.map fun e => if e.1 == name then (name, node) else e

/-- Follow a path, making the tables that are missing, and change the table at
its end. -/
def descend (origin : Origin) (change : Origin → Entries → Option Entries) :
    List String → Origin → Entries → Option Entries
  | [], here, entries => change here entries
  | name :: path, _, entries =>
    match entries.lookup name with
    | none => do
      let inner ← descend origin change path origin []
      return entries ++ [(name, .table origin inner)]
    | some (.value _) => none
    | some (.table made inner) =>
      if origin = .dottedKey ∧ made = .header then none
      else do
        let inner ← descend origin change path made inner
        return replace name (.table made inner) entries
    | some (.rows tables) => do
      let last ← tables.getLast?
      let last ← descend origin change path .header last
      return replace name (.rows (tables.dropLast ++ [last])) entries

/-- Set a key, whose path is all but its last part. -/
def set (path : List String) (name : String) (t : Tree) (entries : Entries) : Option Entries :=
  let change (here : Origin) (entries : Entries) : Option Entries :=
    if path ≠ [] ∧ here ≠ .dottedKey then none
    else if (entries.lookup name).isSome then none
    else some (entries ++ [(name, .value t)])
  descend .dottedKey change path .header entries

end Entries

/-- A key and its value. -/
structure Pair where
  key : List String
  value : Tree

def Pair.setIn (entries : Entries) (p : Pair) : Option Entries := do
  Entries.set p.key.dropLast (← p.key.getLast?) p.value entries

/-- A header: a table, or a row of an array of tables. -/
structure Header where
  key : List String
  isRow : Bool

/-- The table of a header with its pairs. -/
def Header.addTo (h : Header) (pairs : List Pair) (document : Entries) : Option Entries := do
  let name ← h.key.getLast?
  let change (_ : Origin) (entries : Entries) : Option Entries :=
    match h.isRow, entries.lookup name with
    | true, none => do
      let row ← pairs.foldlM Pair.setIn []
      return entries ++ [(name, .rows [row])]
    | true, some (.rows tables) => do
      let row ← pairs.foldlM Pair.setIn []
      return Entries.replace name (.rows (tables ++ [row])) entries
    | false, none => do
      let table ← pairs.foldlM Pair.setIn []
      return entries ++ [(name, .table .header table)]
    | false, some (.table .passage inner) => do
      let table ← pairs.foldlM Pair.setIn inner
      return Entries.replace name (.table .header table) entries
    | _, _ => none
  Entries.descend .passage change h.key.dropLast .header document

mutual

def Node.tree : Node → Tree
  | .value t => t
  | .table _ entries => .record (entryTrees entries)
  | .rows tables => .list (rowTrees tables)

def entryTrees : List (String × Node) → List (Option String × Tree)
  | [] => []
  | (name, node) :: entries => (some name, node.tree) :: entryTrees entries

def rowTrees : List (List (String × Node)) → List Tree
  | [] => []
  | table :: tables => .record (entryTrees table) :: rowTrees tables

end

end ODataQuery.Toml
