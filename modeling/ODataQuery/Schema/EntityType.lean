import ODataQuery.PropertyPath
import ODataQuery.Schema.Basic
import ODataQuery.Schema.Suggestion

/-!
# Entity types

An entity type is a definition seen through its schema, or anonymous, or anything
that answers as one. In a schema paths are walked one segment at a time: a data
property continues into its complex type, a navigation property into its target.
The anonymous type declares nothing; it only renames segments by its convention.
-/

namespace ODataQuery

/-- A property met on a path. -/
structure PropertyInfo where
  name : String
  serverName : String
  /-- Absent for a navigation property. -/
  dataType : Option DataType
  isCollection : Bool
  deriving DecidableEq, Repr

def PropertyInfo.isNavigation (p : PropertyInfo) : Bool := p.dataType.isNone

namespace Schema

def dataInfo (s : Schema) (p : DataProperty) : PropertyInfo :=
  ⟨p.name, p.serverName.getD (s.naming.serverName p.name), some p.dataType, false⟩

def navigationInfo (s : Schema) (n : NavigationProperty) : PropertyInfo :=
  ⟨n.name, n.serverName.getD (s.naming.serverName n.name), none, n.isCollection⟩

/-- The property that a segment names on a type, and the type that it leads to.
A data property hides a navigation property of the same name. -/
def step? (s : Schema) (d : TypeDefinition) (segment : String) :
    Option (PropertyInfo × Option TypeDefinition) :=
  match d.properties.find? (·.name == segment) with
  | some p => some (s.dataInfo p, p.complexType.bind s.complexType?)
  | none =>
    (d.navigations.find? (·.name == segment)).map fun n =>
      (s.navigationInfo n, s.entityType? n.target)

/-- Walk on from a type. An unknown segment is reported on the type where it was
looked up; a segment behind a property without a type is reported on `root`. -/
def walkFrom (s : Schema) (root : TypeDefinition) (path : PropertyPath) :
    Option TypeDefinition → List String →
      Except QueryError (List PropertyInfo × Option TypeDefinition)
  | current, [] => .ok ([], current)
  | none, _ :: _ => .error (.pathNotFound path.dotted root.name none)
  | some d, segment :: rest =>
    match s.step? d segment with
    | none =>
      .error (.pathNotFound path.dotted d.name (Suggestion.suggest? segment d.propertyNames))
    | some (info, next) => do
      let (infos, last) ← walkFrom s root path next rest
      return (info :: infos, last)

def walk (s : Schema) (d : TypeDefinition) (path : PropertyPath) :
    Except QueryError (List PropertyInfo × Option TypeDefinition) :=
  s.walkFrom d path (some d) path.segments

end Schema

/-- What an entity type answers to the questions of a compilation. -/
structure EntityAnswers where
  name : String
  isAnonymous : Bool
  properties : PropertyPath → Except QueryError (List PropertyInfo)
  serverPath : PropertyPath → String → Except QueryError String
  validatePaths : List PropertyPath → Except QueryError Unit
  /-- Whether a path leads to another type. -/
  leadsOn : PropertyPath → Bool

/-- A type of any other origin is known by its answers and by those of the types that paths
lead to from it, each found by the paths that were followed. -/
inductive EntityType where
  | anonymous (naming : NamingConvention)
  | declared (schema : Schema) (definition : TypeDefinition)
  | other (answers : List PropertyPath → EntityAnswers) (followed : List PropertyPath)

namespace EntityType

def name : EntityType → String
  | .anonymous _ => "<anonymous>"
  | .declared _ d => d.name
  | .other answers followed => (answers followed).name

def isAnonymous : EntityType → Bool
  | .anonymous _ => true
  | .declared _ _ => false
  | .other answers followed => (answers followed).isAnonymous

/-- Every property along a path. The anonymous type has none. -/
def properties (t : EntityType) (path : PropertyPath) : Except QueryError (List PropertyInfo) :=
  match t with
  | .anonymous _ => .error (.pathNotFound path.dotted t.name none)
  | .declared s d => (s.walk d path).map (·.1)
  | .other answers followed => (answers followed).properties path

/-- The server's form of a path, its segments joined by a delimiter. -/
def serverPath (t : EntityType) (path : PropertyPath) (delimiter : String) :
    Except QueryError String :=
  match t with
  | .anonymous naming => .ok (delimiter.intercalate (path.segments.map naming.serverName))
  | .declared _ _ => do
    let infos ← t.properties path
    return delimiter.intercalate (infos.map (·.serverName))
  | .other answers followed => (answers followed).serverPath path delimiter

/-- Every path exists; the anonymous type lets all pass. -/
def validatePaths (t : EntityType) (paths : List PropertyPath) : Except QueryError Unit :=
  match t with
  | .anonymous _ => .ok ()
  | .declared _ _ => paths.forM fun path => do let _ ← t.properties path
  | .other answers followed => (answers followed).validatePaths paths

/-- The entity type that a path leads to when it ends on a navigation property. -/
def element? (t : EntityType) (path : PropertyPath) : Option EntityType :=
  match t with
  | .anonymous _ => none
  | .declared s d =>
    match s.walk d path with
    | .ok (infos, some last) =>
      if infos.getLast?.any (·.isNavigation) then some (.declared s last) else none
    | _ => none
  | .other answers followed =>
    if (answers followed).leadsOn path then some (.other answers (followed ++ [path])) else none

end EntityType

/-- Where entity types come from. -/
structure Resolver where
  /-- The convention for a resource that does not resolve. -/
  naming : NamingConvention
  resolve? : String → Option EntityType

namespace Resolver

/-- A convention and no types. -/
def absent (naming : NamingConvention) : Resolver := ⟨naming, fun _ => none⟩

def schema (s : Schema) : Resolver :=
  ⟨s.naming, fun resource => (s.resource? resource).map (.declared s)⟩

/-- A resource that does not resolve has the anonymous type. -/
def entityType (r : Resolver) (resource : String) : EntityType :=
  (r.resolve? resource).getD (.anonymous r.naming)

end Resolver

/-- What a configuration can name: a schema, or only a convention. -/
inductive Metadata where
  | absent (naming : NamingConvention)
  | schema (s : Schema)

namespace Metadata

def resolver : Metadata → Resolver
  | .absent naming => .absent naming
  | .schema s => .schema s

instance : Coe Metadata Resolver := ⟨resolver⟩

def resolve? (m : Metadata) (resource : String) : Option EntityType :=
  m.resolver.resolve? resource

def entityType (m : Metadata) (resource : String) : EntityType :=
  m.resolver.entityType resource

end Metadata

end ODataQuery
