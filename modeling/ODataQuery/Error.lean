import ODataQuery.Number.Integer

namespace ODataQuery

/-- Why a file cannot be read. -/
inductive FileFault where
  | notFound
  | notDirectory
  | isDirectory
  | other (text : String)
  deriving DecidableEq, Repr

def FileFault.message : FileFault → String
  | .notFound => "No such file or directory (os error 2)"
  | .notDirectory => "Not a directory (os error 20)"
  | .isDirectory => "Is a directory (os error 21)"
  | .other text => text

/-- Why a document does not give a value. When it is malformed the wording belongs to the reader
that found it. -/
inductive DocumentFault where
  | malformed
  /-- A query parameter that is neither text, number, flag nor a list of these;
  `value` is its JSON text. -/
  | unsupportedParameter (value : String)
  deriving DecidableEq, Repr

def DocumentFault.message : DocumentFault → String
  | .malformed => ""
  | .unsupportedParameter value => "unsupported parameter value: " ++ value

/-- Why metadata is refused. A dangling reference names its owner, the property
and the missing type. -/
inductive SchemaFault where
  | malformed
  | unknownComplexType (owner property target : String)
  | unknownEntityType (owner property target : String)
  deriving DecidableEq, Repr

def SchemaFault.message : SchemaFault → String
  | .malformed => ""
  | .unknownComplexType owner property target =>
    "property '" ++ owner ++ "." ++ property ++ "' has unknown complex type '" ++ target ++ "'"
  | .unknownEntityType owner property target =>
    "navigation property '" ++ owner ++ "." ++ property ++ "' targets unknown entity type '" ++
      target ++ "'"

/-- Why a configuration is refused. -/
inductive ConfigFault where
  | malformed
  | zeroDepth
  | unknownDialect (name : String)
  deriving DecidableEq, Repr

def ConfigFault.message : ConfigFault → String
  | .malformed => ""
  | .zeroDepth => "max_depth must be at least 1"
  | .unknownDialect name => "unknown dialect '" ++ name ++ "', expected v4 or v401"

inductive QueryError where
  /-- A path leaves the declared properties of a type. -/
  | pathNotFound (path typeName : String) (suggestion : Option String)
  /-- A node stands where its kind cannot be written. -/
  | unsupportedNode (node : String)
  /-- A value does not fit its declared type. -/
  | invalidValue (typeName value : String)
  | depthExceeded (limit : Nat)
  | metadata (fault : SchemaFault)
  | config (fault : ConfigFault)
  /-- An encoded query is malformed at a byte position. -/
  | parse (position : Nat) (text : String)
  | file (fault : FileFault)
  | document (fault : DocumentFault)
  deriving DecidableEq, Repr

namespace QueryError

def message : QueryError → String
  | .pathNotFound path typeName suggestion =>
    "Property path '" ++ path ++ "' not found on entity type '" ++ typeName ++ "'" ++
      match suggestion with
      | some name => ". Did you mean '" ++ name ++ "'?"
      | none => ""
  | .unsupportedNode node => "Unsupported node: " ++ node
  | .invalidValue typeName value => "Invalid value for " ++ typeName ++ ": " ++ value
  | .depthExceeded limit =>
    "Predicate tree exceeds maximum depth of " ++ Integer.toText limit
  | .metadata fault => "Metadata error: " ++ fault.message
  | .config fault => "Configuration error: " ++ fault.message
  | .parse position text =>
    "Parse error at position " ++ Integer.toText position ++ ": " ++ text
  | .file fault => "IO error: " ++ fault.message
  | .document fault => "JSON error: " ++ fault.message

/-- Only a missing path takes a suggestion. -/
def withSuggestion (hint : Option String) : QueryError → QueryError
  | .pathNotFound path typeName _ => .pathNotFound path typeName hint
  | e => e

end QueryError

end ODataQuery
