import ODataQuery.Document.Tree
import ODataQuery.Error

/-!
# Reading trees

The rules that every reader shares. A record with fixed fields may also be a
list of its fields in their declared order, the last ones left out where they
have a default. A field is given once, and an unknown field is ignored. One of
several cases is a record with the case as its only member; a case without data
may be its bare name.
-/

namespace ODataQuery

/-- Reading stops at the first fault in the order of the text. -/
abbrev Reading (α : Type) := Except DocumentFault α

def malformed {α : Type} : Reading α := .error .malformed

namespace Tree

def asText : Tree → Reading String
  | .text s => .ok s
  | _ => malformed

def asBool : Tree → Reading Bool
  | .bool b => .ok b
  | _ => malformed

/-- A count that fits 64 bits. -/
def asCount : Tree → Reading UInt64
  | .int n => if 0 ≤ n ∧ n < 0x10000000000000000 then .ok (UInt64.ofNat n.toNat) else malformed
  | _ => malformed

def asList {α : Type} (read : Tree → Reading α) : Tree → Reading (List α)
  | .list ts => ts.mapM read
  | _ => malformed

def asOption {α : Type} (read : Tree → Reading α) : Tree → Reading (Option α)
  | .null => .ok none
  | t => do return some (← read t)

/-- List items under the names of the fields. Surplus items have no name. -/
def nameItems (m : Markup) : List String → List Tree → List (Option String × Tree)
  | name :: names, t :: ts => (some name, t) :: nameItems m names ts
  | [], _ :: _ => if m = .json then [(none, .fault .unreadable)] else []
  | _, [] => []

/-- The members of a record, or of a list that stands for one. -/
def members (m : Markup) (names : List String) : Tree → Reading (List (Option String × Tree))
  | .record ms => .ok ms
  | .list ts => .ok (nameItems m names ts)
  | _ => malformed

/-- The known fields of a record, each once. -/
def knownFields (names : List String) :
    List (Option String × Tree) → Reading (List (String × Tree))
  | [] => .ok []
  | (none, _) :: _ => malformed
  | (some name, t) :: ms => do
    let fields ← knownFields names ms
    if name ∈ names then
      if (fields.lookup name).isSome then malformed else return (name, t) :: fields
    else if t.isClosed then return fields
    else malformed

def fields (m : Markup) (names : List String) (t : Tree) : Reading (List (String × Tree)) := do
  knownFields names (← t.members m names)

/-- Whether a record has no field beside the known ones. -/
def hasOnly (names : List String) : Tree → Bool
  | .record ms => ms.all fun m => m.1.any (· ∈ names)
  | _ => true

/-- The case of a record and its data. -/
def variant : Tree → Reading (String × Tree)
  | .record [(some name, t)] => .ok (name, t)
  | _ => malformed

/-- What stands for the data of a case that has none. -/
def isUnit (m : Markup) : Tree → Bool
  | .null => m == .json
  | .list [] => m == .toml
  | .record [] => m == .toml
  | _ => false

/-- The name of a case without data. -/
def caseName (m : Markup) : Tree → Reading String
  | .text s => .ok s
  | .record [(some name, t)] => if t.isUnit m then .ok name else malformed
  | _ => malformed

/-- One of several cases without data. -/
def asCase {α : Type} (m : Markup) (ofName? : String → Option α) (t : Tree) : Reading α := do
  match ofName? (← t.caseName m) with
  | some a => return a
  | none => malformed

end Tree

/-- A field that has to be there. -/
def requiredField {α : Type} (fields : List (String × Tree)) (name : String)
    (read : Tree → Reading α) : Reading α :=
  match fields.lookup name with
  | some t => read t
  | none => malformed

def defaultedField {α : Type} (fields : List (String × Tree)) (name : String)
    (read : Tree → Reading α) (absent : α) : Reading α :=
  match fields.lookup name with
  | some t => read t
  | none => .ok absent

end ODataQuery
