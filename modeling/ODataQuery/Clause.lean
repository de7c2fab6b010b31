import ODataQuery.Query.Basic
import ODataQuery.Schema.EntityType

namespace ODataQuery.Clause

def orderItem (t : EntityType) (item : OrderItem) : Except QueryError String := do
  let path ← t.serverPath item.path "/"
  return if item.descending then path ++ " desc" else path

/-- All paths are checked before any is written. -/
def orderBy (t : EntityType) (items : List OrderItem) : Except QueryError String := do
  t.validatePaths (items.map (·.path))
  return ",".intercalate (← items.mapM (orderItem t))

def select (t : EntityType) (paths : List PropertyPath) : Except QueryError String := do
  t.validatePaths paths
  return ",".intercalate (← paths.mapM (t.serverPath · "/"))

/-- `A($expand=B($expand=C))`, innermost last. -/
def nest : List String → String
  | [] => ""
  | [name] => name
  | name :: rest => name ++ "($expand=" ++ nest rest ++ ")"

def expandItem (t : EntityType) (path : PropertyPath) : Except QueryError String := do
  return nest ((← t.properties path).map (·.serverName))

def expand (t : EntityType) (paths : List PropertyPath) : Except QueryError String := do
  return ",".intercalate (← paths.mapM (expandItem t))

end ODataQuery.Clause
