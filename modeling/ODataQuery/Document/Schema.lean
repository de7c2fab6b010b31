import ODataQuery.Document.Query
import ODataQuery.Document.Toml.Read
import ODataQuery.Schema.Basic

namespace ODataQuery

namespace DataProperty

def ofTree (m : Markup) (t : Tree) : Reading DataProperty := do
  let fields ← t.fields m ["name", "name_on_server", "data_type", "complex_type"]
  let name ← requiredField fields "name" Tree.asText
  let serverName ← defaultedField fields "name_on_server" (Tree.asOption Tree.asText) none
  let dataType ← defaultedField fields "data_type" (DataType.ofTree m) .undefined
  let complexType ← defaultedField fields "complex_type" (Tree.asOption Tree.asText) none
  return ⟨name, serverName, dataType, complexType⟩

def tree (p : DataProperty) : Tree :=
  .object [
    ("name", .text p.name),
    ("name_on_server", EntityQuery.optionTree .text p.serverName),
    ("data_type", .text p.dataType.name),
    ("complex_type", EntityQuery.optionTree .text p.complexType)]

end DataProperty

namespace NavigationProperty

def ofTree (m : Markup) (t : Tree) : Reading NavigationProperty := do
  let fields ← t.fields m ["name", "name_on_server", "entity_type", "is_collection"]
  let name ← requiredField fields "name" Tree.asText
  let serverName ← defaultedField fields "name_on_server" (Tree.asOption Tree.asText) none
  let target ← requiredField fields "entity_type" Tree.asText
  let isCollection ← defaultedField fields "is_collection" Tree.asBool false
  return ⟨name, serverName, target, isCollection⟩

def tree (n : NavigationProperty) : Tree :=
  .object [
    ("name", .text n.name),
    ("name_on_server", EntityQuery.optionTree .text n.serverName),
    ("entity_type", .text n.target),
    ("is_collection", .bool n.isCollection)]

end NavigationProperty

namespace TypeDefinition

def ofTree (m : Markup) (t : Tree) : Reading TypeDefinition := do
  let fields ← t.fields m ["name", "resource_name", "properties", "navigation_properties"]
  let name ← requiredField fields "name" Tree.asText
  let resource ← defaultedField fields "resource_name" (Tree.asOption Tree.asText) none
  let properties ← defaultedField fields "properties" (Tree.asList (DataProperty.ofTree m)) []
  let navigations ←
    defaultedField fields "navigation_properties" (Tree.asList (NavigationProperty.ofTree m)) []
  return ⟨name, resource, properties, navigations⟩

def tree (d : TypeDefinition) : Tree :=
  .object [
    ("name", .text d.name),
    ("resource_name", EntityQuery.optionTree .text d.resource),
    ("properties", .list (d.properties.map DataProperty.tree)),
    ("navigation_properties", .list (d.navigations.map NavigationProperty.tree))]

end TypeDefinition

namespace Schema

def ofTree (m : Markup) (t : Tree) : Reading Schema := do
  let fields ← t.fields m ["naming_convention", "entity_types", "complex_types"]
  let naming ←
    defaultedField fields "naming_convention" (Tree.asCase m NamingConvention.ofName?) .none
  let entityTypes ←
    defaultedField fields "entity_types" (Tree.asList (TypeDefinition.ofTree m)) []
  let complexTypes ←
    defaultedField fields "complex_types" (Tree.asList (TypeDefinition.ofTree m)) []
  return ⟨naming, entityTypes, complexTypes⟩

def tree (s : Schema) : Tree :=
  .object [
    ("naming_convention", .text s.naming.name),
    ("entity_types", .list (s.entityTypes.map TypeDefinition.tree)),
    ("complex_types", .list (s.complexTypes.map TypeDefinition.tree))]

/-- Only a valid schema is accepted. -/
def accept (read : Reading Schema) : Except QueryError Schema :=
  match read with
  | .error _ => .error (.metadata .malformed)
  | .ok s => do
    s.validate
    return s

def ofJson (text : String) : Except QueryError Schema :=
  accept (Json.decode (ofTree .json) text)

def ofToml (text : String) : Except QueryError Schema :=
  accept (match Toml.read? text with
    | some t => ofTree .toml t
    | none => malformed)

end Schema

end ODataQuery
