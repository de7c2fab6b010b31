import ODataQuery.Clause
import ODataQuery.Filter.Render
import ODataQuery.Query.Options

namespace ODataQuery

structure CompileOptions where
  dialect : Dialect := .v4
  /-- The greatest depth that a filter may have. -/
  maxDepth : Nat := 128
  deriving DecidableEq, Repr

/-- A limit of zero would refuse every filter. -/
def CompileOptions.validate (o : CompileOptions) : Except QueryError Unit :=
  if o.maxDepth = 0 then .error (.config .zeroDepth) else .ok ()

namespace EntityQuery

/-- Render what may be absent. -/
def clauseText {α : Type} (clause : Option α) (render : α → Except QueryError String) :
    Except QueryError (Option ParamValue) :=
  match clause with
  | none => .ok none
  | some c => do return some (.scalar (← render c))

def countText (n : UInt64) : ParamValue := .scalar (Integer.toText n.toNat)

/-- The options by name, the built-in ones first. A free parameter of the same name replaces a
built-in option in its place. A skip of zero is left out. -/
def options (q : EntityQuery) (t : EntityType) (o : CompileOptions) :
    Except QueryError OptionMap := do
  let filter ← clauseText q.filter (·.render (.root (some t) o.dialect o.maxDepth))
  let order ← clauseText q.orderBy (Clause.orderBy t)
  let expand ← clauseText q.expand (Clause.expand t)
  let select ← clauseText q.select (Clause.select t)
  let builtIn : OptionMap := .ofList [
    ("$filter", filter),
    ("$orderby", order),
    ("$skip", (q.skip.filter (· != 0)).map countText),
    ("$top", q.take.map countText),
    ("$expand", expand),
    ("$select", select),
    ("$count", if q.inlineCount then some (.scalar "true") else none)]
  return builtIn.insertAll (q.parameters.entries.map fun e => (e.1, some e.2))

/-- The options go behind a `?`, or behind a `&` when the resource has options
already. -/
def attach (resource encoded : String) : String :=
  if encoded.isEmpty then resource
  else resource ++ (if '?' ∈ resource.toList then "&" else "?") ++ encoded

def compile (q : EntityQuery) (r : Resolver) (o : CompileOptions) : Except QueryError String := do
  o.validate
  let options ← q.options (r.entityType q.resourcePath) o
  return attach q.resource options.encode

end EntityQuery

end ODataQuery
