import ODataQuery.Number.Binary64

/-!
# Document trees

A document is read into one kind of tree, whatever its markup. Where the text
stops following its grammar the tree ends in a fault, so a reader that goes
through the tree in order meets a wrong value before it if it comes first in the
text. A field that is ignored may hold anything that is closed.
-/

namespace ODataQuery

/-- The markup of a text. JSON has null and refuses surplus list items; TOML has
neither rule. -/
inductive Markup where
  | json
  | toml
  deriving DecidableEq, Repr

inductive Tree.Fault where
  /-- A value that ends where a value may end but that no field takes: nested too
  deeply, out of range, or a string that is no Unicode text. -/
  | unreadable
  /-- The text leaves its grammar here. -/
  | broken
  deriving DecidableEq, Repr

inductive Tree where
  | null
  | bool (b : Bool)
  | int (n : Int)
  | float (x : Binary64)
  | text (s : String)
  | list (items : List Tree)
  /-- Members in order. A member whose name is no Unicode text, or is not there
  because the text is broken, has none. -/
  | record (members : List (Option String × Tree))
  | fault (f : Tree.Fault)

namespace Tree

/-- A record whose names are all known. -/
def object (members : List (String × Tree)) : Tree :=
  .record (members.map fun m => (some m.1, m.2))

mutual

/-- Whether the text of the value ends where it should. -/
def isClosed : Tree → Bool
  | .list items => itemsClosed items
  | .record members => membersClosed members
  | .fault f => f == .unreadable
  | _ => true

def itemsClosed : List Tree → Bool
  | [] => true
  | t :: ts => t.isClosed && itemsClosed ts

def membersClosed : List (Option String × Tree) → Bool
  | [] => true
  | (_, t) :: ms => t.isClosed && membersClosed ms

end

mutual

/-- Whether the value holds no fault at all. -/
def isWhole : Tree → Bool
  | .list items => itemsWhole items
  | .record members => membersWhole members
  | .fault _ => false
  | _ => true

def itemsWhole : List Tree → Bool
  | [] => true
  | t :: ts => t.isWhole && itemsWhole ts

def membersWhole : List (Option String × Tree) → Bool
  | [] => true
  | (name, t) :: ms => name.isSome && t.isWhole && membersWhole ms

end

mutual

/-- Levels of lists and records, a leaf being one level. -/
def height : Tree → Nat
  | .list items => itemsHeight items + 1
  | .record members => membersHeight members + 1
  | _ => 1

def itemsHeight : List Tree → Nat
  | [] => 0
  | t :: ts => max t.height (itemsHeight ts)

def membersHeight : List (Option String × Tree) → Nat
  | [] => 0
  | (_, t) :: ms => max t.height (membersHeight ms)

end

/-- Put a member where the order of names wants it, over one of the same name. -/
def placeMember (name : String) (t : Tree) :
    List (Option String × Tree) → List (Option String × Tree)
  | [] => [(some name, t)]
  | (some n, u) :: ms =>
    if name < n then (some name, t) :: (some n, u) :: ms
    else if name = n then (some name, t) :: ms
    else (some n, u) :: placeMember name t ms
  | (none, u) :: ms => (none, u) :: placeMember name t ms

mutual

/-- Each record with its names in order, the last member of a name standing. -/
def sorted : Tree → Tree
  | .list items => .list (sortedItems items)
  | .record members => .record (sortedMembers [] members)
  | t => t

def sortedItems : List Tree → List Tree
  | [] => []
  | t :: ts => t.sorted :: sortedItems ts

def sortedMembers (placed : List (Option String × Tree)) :
    List (Option String × Tree) → List (Option String × Tree)
  | [] => placed
  | (some name, t) :: ms => sortedMembers (placeMember name t.sorted placed) ms
  | (none, _) :: ms => sortedMembers placed ms

end

end Tree

end ODataQuery
