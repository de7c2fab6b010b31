import ODataQuery.Document.Fields
import ODataQuery.Document.Json
import ODataQuery.Query.Basic

namespace ODataQuery

def DataType.ofTree (m : Markup) (t : Tree) : Reading DataType := t.asCase m DataType.ofName?

def PropertyPath.ofTree (t : Tree) : Reading PropertyPath := do
  return PropertyPath.parse (← t.asText)

def PropertyPath.tree (p : PropertyPath) : Tree := .text p.dotted

namespace Value

mutual

/-- A value is known by its shape alone: an integer beyond 64 bits is a double, and a timestamp
is read back as text. -/
def ofTree : Tree → Reading Value
  | .null => .ok .null
  | .bool b => .ok (.bool b)
  | .int n =>
    .ok (if Integer.isWord n then .int (Int64.ofInt n) else .float (Binary64.ofInt n))
  | .float x => .ok (.float x)
  | .text s => .ok (.string s)
  | .list ts => do return .list (← ofTrees ts)
  | _ => malformed

def ofTrees : List Tree → Reading (List Value)
  | [] => .ok []
  | t :: ts => do
    let v ← ofTree t
    let vs ← ofTrees ts
    return v :: vs

end

mutual

def tree : Value → Tree
  | .null => .null
  | .bool b => .bool b
  | .int n => .int n.toInt
  | .float x => if x.isFinite then .float x else .null
  | .string s => .text s
  | .list vs => .list (trees vs)
  | .timestamp t => .text t.localText

def trees : List Value → List Tree
  | [] => []
  | v :: vs => v.tree :: trees vs

end

end Value

namespace Expr

/-- `fuel` bounds the nesting of calls. -/
def read : Nat → Tree → Reading Expr
  | 0, _ => malformed
  | fuel + 1, t => do
    match ← t.variant with
    | ("literal", t) =>
      let fields ← t.fields .json ["data_type", "value"]
      let type ← defaultedField fields "data_type" (DataType.ofTree .json) .undefined
      let value ← requiredField fields "value" Value.ofTree
      return .literal type value
    | ("property", t) => return .property (← PropertyPath.ofTree t)
    | ("function", t) =>
      let fields ← t.fields .json ["name", "args"]
      let name ← requiredField fields "name" Tree.asText
      let args ← defaultedField fields "args" (Tree.asList (read fuel)) []
      return .function name args
    | _ => malformed

def ofTree (t : Tree) : Reading Expr := read t.height t

mutual

def tree : Expr → Tree
  | .literal type value =>
    .object [("literal", .object [("data_type", .text type.name), ("value", value.tree)])]
  | .property path => .object [("property", path.tree)]
  | .function name args =>
    .object [("function", .object [("name", .text name), ("args", .list (trees args))])]

def trees : List Expr → List Tree
  | [] => []
  | e :: es => e.tree :: trees es

end

end Expr

def BinaryOp.ofTree (t : Tree) : Reading BinaryOp := t.asCase .json BinaryOp.ofKey?

def Connective.ofKey? : String → Option Connective
  | "and" => some .and
  | "or" => some .or
  | _ => none

def Quantifier.ofKey? : String → Option Quantifier
  | "any" => some .any
  | "all" => some .all
  | _ => none

/-- The only operator on one predicate. -/
def negation? : String → Option Unit
  | "not" => some ()
  | _ => none

namespace Predicate

/-- `fuel` bounds the nesting of predicates. -/
def read : Nat → Tree → Reading Predicate
  | 0, _ => malformed
  | fuel + 1, t => do
    match ← t.variant with
    | ("passthrough", t) => return .passthrough (← t.asText)
    | ("unary", t) =>
      let fields ← t.fields .json ["op", "operand"]
      let _ ← requiredField fields "op" (Tree.asCase .json negation?)
      let operand ← requiredField fields "operand" (read fuel)
      return .not operand
    | ("binary", t) =>
      let fields ← t.fields .json ["op", "left", "right"]
      let op ← requiredField fields "op" BinaryOp.ofTree
      let left ← requiredField fields "left" Expr.ofTree
      let right ← requiredField fields "right" Expr.ofTree
      return .binary op left right
    | ("and_or", t) =>
      let fields ← t.fields .json ["op", "operands"]
      let op ← requiredField fields "op" (Tree.asCase .json Connective.ofKey?)
      let operands ← requiredField fields "operands" (Tree.asList (read fuel))
      return .junction op operands
    | ("any_all", t) =>
      let fields ← t.fields .json ["op", "source", "predicate"]
      let op ← requiredField fields "op" (Tree.asCase .json Quantifier.ofKey?)
      let source ← requiredField fields "source" Expr.ofTree
      let body ← requiredField fields "predicate" (read fuel)
      return .lambda op source body
    | _ => malformed

def ofTree (t : Tree) : Reading Predicate := read t.height t

mutual

def tree : Predicate → Tree
  | .passthrough text => .object [("passthrough", .text text)]
  | .not operand =>
    .object [("unary", .object [("op", .text "not"), ("operand", operand.tree)])]
  | .binary op left right =>
    .object [("binary",
      .object [("op", .text op.key), ("left", left.tree), ("right", right.tree)])]
  | .junction op operands =>
    .object [("and_or", .object [("op", .text op.key), ("operands", .list (trees operands))])]
  | .lambda op source body =>
    .object [("any_all",
      .object [("op", .text op.key), ("source", source.tree), ("predicate", body.tree)])]

def trees : List Predicate → List Tree
  | [] => []
  | p :: ps => p.tree :: trees ps

end

end Predicate

namespace ParamValue

/-- The text of a scalar. The value that has none is shown in compact JSON. -/
def scalarText : Tree → Reading String
  | .text s => .ok s
  | .int n => .ok (Integer.toText n)
  | .float x => .ok (x.toJson?.getD "null")
  | .bool b => .ok (if b then "true" else "false")
  | t => .error (.unsupportedParameter (Json.write t.sorted))

/-- The value is read as a whole before its kind is looked at. -/
def ofTree (t : Tree) : Reading ParamValue :=
  if t.isWhole then
    match t with
    | .list ts => do return .list (← ts.mapM scalarText)
    | t => do return .scalar (← scalarText t)
  else malformed

def tree : ParamValue → Tree
  | .scalar text => .text text
  | .list texts => .list (texts.map .text)

end ParamValue

/-- A name given again keeps its place and takes the later value. -/
def readParameters : Tree → Reading (OrderedMap ParamValue)
  | .record ms =>
    ms.foldlM (fun map m => do
      match m with
      | (some name, t) => return map.insert name (← ParamValue.ofTree t)
      | (none, _) => malformed) .empty
  | _ => malformed

namespace OrderItem

def ofTree (t : Tree) : Reading OrderItem := do
  let fields ← t.fields .json ["path", "descending"]
  let path ← requiredField fields "path" PropertyPath.ofTree
  let descending ← defaultedField fields "descending" Tree.asBool false
  return ⟨path, descending⟩

def tree (item : OrderItem) : Tree :=
  .object [("path", item.path.tree), ("descending", .bool item.descending)]

end OrderItem

namespace EntityQuery

def fieldNames : List String :=
  ["resource_name", "where", "order_by", "skip", "take", "expand", "select", "inline_count",
    "parameters"]

/-- Read one field into a query. -/
def readField (q : EntityQuery) (name : String) (t : Tree) : Reading EntityQuery := do
  match name with
  | "resource_name" => return { q with resource := ← t.asText }
  | "where" => return { q with filter := ← t.asOption Predicate.ofTree }
  | "order_by" => return { q with orderBy := ← t.asOption (Tree.asList OrderItem.ofTree) }
  | "skip" => return { q with skip := ← t.asOption Tree.asCount }
  | "take" => return { q with take := ← t.asOption Tree.asCount }
  | "expand" => return { q with expand := ← t.asOption (Tree.asList PropertyPath.ofTree) }
  | "select" => return { q with select := ← t.asOption (Tree.asList PropertyPath.ofTree) }
  | "inline_count" => return { q with inlineCount := ← t.asBool }
  | "parameters" => return { q with parameters := ← readParameters t }
  | _ => if t.isClosed then return q else malformed

/-- The fields in the order of the text, none of the known ones twice. -/
def readFields (seen : List String) (q : EntityQuery) :
    List (Option String × Tree) → Reading EntityQuery
  | [] => .ok q
  | (none, _) :: _ => malformed
  | (some name, t) :: ms =>
    if name ∈ seen ∧ name ∈ fieldNames then malformed
    else do
      let q ← q.readField name t
      readFields (name :: seen) q ms

/-- Every field has a default. -/
def ofTree (t : Tree) : Reading EntityQuery := do
  readFields [] {} (← t.members .json fieldNames)

def optionTree {α : Type} (tree : α → Tree) : Option α → Tree
  | some a => tree a
  | none => .null

def tree (q : EntityQuery) : Tree :=
  .object [
    ("resource_name", .text q.resource),
    ("where", optionTree Predicate.tree q.filter),
    ("order_by", optionTree (fun items => .list (items.map OrderItem.tree)) q.orderBy),
    ("skip", optionTree (fun n => .int n.toNat) q.skip),
    ("take", optionTree (fun n => .int n.toNat) q.take),
    ("expand", optionTree (fun paths => .list (paths.map PropertyPath.tree)) q.expand),
    ("select", optionTree (fun paths => .list (paths.map PropertyPath.tree)) q.select),
    ("inline_count", .bool q.inlineCount),
    ("parameters", .object (q.parameters.entries.map fun e => (e.1, e.2.tree)))]

end EntityQuery

/-- Read a JSON text. What follows the value is looked at last. -/
def Json.decode {α : Type} (ofTree : Tree → Reading α) (s : String) : Reading α := do
  let (t, ended) := Json.read s
  let a ← ofTree t
  if ended then return a else malformed

end ODataQuery
