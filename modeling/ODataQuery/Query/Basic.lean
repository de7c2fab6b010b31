import ODataQuery.Filter.Predicate
import ODataQuery.OrderedMap

namespace ODataQuery

structure OrderItem where
  path : PropertyPath
  descending : Bool
  deriving DecidableEq, Repr

/-- The value of a free parameter. A list gives one entry for each element. -/
inductive ParamValue where
  | scalar (text : String)
  | list (texts : List String)
  deriving DecidableEq, Repr

structure EntityQuery where
  /-- The resource, which may already carry options behind a `?`. -/
  resource : String := ""
  filter : Option Predicate := none
  orderBy : Option (List OrderItem) := none
  skip : Option UInt64 := none
  take : Option UInt64 := none
  expand : Option (List PropertyPath) := none
  select : Option (List PropertyPath) := none
  inlineCount : Bool := false
  parameters : OrderedMap ParamValue := .empty

namespace EntityQuery

def ofResource (resource : String) : EntityQuery := { resource }

def addFilter (q : EntityQuery) (p : Predicate) : EntityQuery :=
  { q with
    filter := some (match q.filter with
      | some existing => existing.and p
      | none => p) }

def addOrder (q : EntityQuery) (path : PropertyPath) (descending : Bool) : EntityQuery :=
  { q with orderBy := some (q.orderBy.getD [] ++ [⟨path, descending⟩]) }

def addExpand (q : EntityQuery) (path : PropertyPath) : EntityQuery :=
  { q with expand := some (q.expand.getD [] ++ [path]) }

def addSelect (q : EntityQuery) (path : PropertyPath) : EntityQuery :=
  { q with select := some (q.select.getD [] ++ [path]) }

/-- A parameter set again keeps its place. -/
def setParameter (q : EntityQuery) (name : String) (value : ParamValue) : EntityQuery :=
  { q with parameters := q.parameters.insert name value }

/-- The resource without any options, by which its entity type is found. -/
def resourcePath (q : EntityQuery) : String :=
  String.ofList (q.resource.toList.takeWhile (· != '?'))

end EntityQuery

end ODataQuery
