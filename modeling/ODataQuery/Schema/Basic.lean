import ODataQuery.Error
import ODataQuery.Naming
import ODataQuery.Value

namespace ODataQuery

structure DataProperty where
  name : String
  /-- The server's name where the convention does not give it. -/
  serverName : Option String := none
  dataType : DataType := .undefined
  /-- The complex type whose properties continue a path. -/
  complexType : Option String := none
  deriving DecidableEq, Repr

structure NavigationProperty where
  name : String
  serverName : Option String := none
  /-- The entity type that it leads to. -/
  target : String
  isCollection : Bool := false
  deriving DecidableEq, Repr

structure TypeDefinition where
  name : String
  /-- The resource through which the type is queried. -/
  resource : Option String := none
  properties : List DataProperty := []
  navigations : List NavigationProperty := []
  deriving DecidableEq, Repr

/-- A name that is declared twice means its first declaration. -/
structure Schema where
  naming : NamingConvention := .none
  entityTypes : List TypeDefinition := []
  complexTypes : List TypeDefinition := []
  deriving DecidableEq, Repr

namespace TypeDefinition

def addProperty (d : TypeDefinition) (p : DataProperty) : TypeDefinition :=
  { d with properties := d.properties ++ [p] }

def addNavigation (d : TypeDefinition) (n : NavigationProperty) : TypeDefinition :=
  { d with navigations := d.navigations ++ [n] }

/-- Data properties come before navigation properties. -/
def propertyNames (d : TypeDefinition) : List String :=
  d.properties.map (·.name) ++ d.navigations.map (·.name)

end TypeDefinition

namespace Schema

def addEntityType (s : Schema) (d : TypeDefinition) : Schema :=
  { s with entityTypes := s.entityTypes ++ [d] }

def addComplexType (s : Schema) (d : TypeDefinition) : Schema :=
  { s with complexTypes := s.complexTypes ++ [d] }

def entityType? (s : Schema) (name : String) : Option TypeDefinition :=
  s.entityTypes.find? (·.name == name)

def complexType? (s : Schema) (name : String) : Option TypeDefinition :=
  s.complexTypes.find? (·.name == name)

/-- The entity type of a resource, or else of that name. -/
def resource? (s : Schema) (name : String) : Option TypeDefinition :=
  (s.entityTypes.find? (·.resource == some name)).or (s.entityType? name)

def checkProperty (s : Schema) (d : TypeDefinition) (p : DataProperty) :
    Except QueryError Unit :=
  match p.complexType with
  | none => .ok ()
  | some target =>
    if (s.complexType? target).isSome then .ok ()
    else .error (.metadata (.unknownComplexType d.name p.name target))

def checkNavigation (s : Schema) (d : TypeDefinition) (n : NavigationProperty) :
    Except QueryError Unit :=
  if (s.entityType? n.target).isSome then .ok ()
  else .error (.metadata (.unknownEntityType d.name n.name n.target))

def checkType (s : Schema) (d : TypeDefinition) : Except QueryError Unit := do
  d.properties.forM (s.checkProperty d)
  d.navigations.forM (s.checkNavigation d)

/-- Every reference is to a declared type; the first that is not is reported. -/
def validate (s : Schema) : Except QueryError Unit :=
  (s.entityTypes ++ s.complexTypes).forM s.checkType

end Schema

end ODataQuery
