import ODataQuery.Document.Schema
import ODataQuery.File.Host
import ODataQuery.File.Path
import ODataQuery.Query.Compile
import ODataQuery.Uri

namespace ODataQuery

structure Config where
  /-- The schema document. -/
  metadata : Option String := none
  dialect : Option Dialect := none
  /-- Put in front of compiled URIs. -/
  baseUrl : Option String := none
  maxDepth : Option Nat := none
  deriving DecidableEq, Repr

/-- A schema from a file: TOML by its extension, JSON otherwise. -/
def Schema.load {m : Type → Type} [Monad m] (host : Host m) (path : String) :
    m (Except QueryError Schema) := do
  match ← host.read path with
  | .error fault => return .error (.file fault)
  | .ok text =>
    return if Path.extension? path = some "toml" then Schema.ofToml text else Schema.ofJson text

namespace Config

def fieldNames : List String := ["metadata", "dialect", "base_url", "max_depth"]

def ofTree (t : Tree) : Reading Config := do
  let fields ← t.fields .toml fieldNames
  if t.hasOnly fieldNames then
    let metadata ← defaultedField fields "metadata" (Tree.asOption Tree.asText) none
    let dialect ←
      defaultedField fields "dialect" (Tree.asOption (Tree.asCase .toml Dialect.ofName?)) none
    let baseUrl ← defaultedField fields "base_url" (Tree.asOption Tree.asText) none
    let maxDepth ← defaultedField fields "max_depth" (Tree.asOption Tree.asCount) none
    return ⟨metadata, dialect, baseUrl, maxDepth.map (·.toNat)⟩
  else malformed

def tree (c : Config) : Tree :=
  .object [
    ("metadata", EntityQuery.optionTree .text c.metadata),
    ("dialect", EntityQuery.optionTree (fun d => .text d.name) c.dialect),
    ("base_url", EntityQuery.optionTree .text c.baseUrl),
    ("max_depth", EntityQuery.optionTree (fun n => .int n) c.maxDepth)]

def compileOptions (c : Config) : CompileOptions :=
  ⟨c.dialect.getD .v4, c.maxDepth.getD 128⟩

def ofToml (text : String) : Except QueryError Config :=
  match Toml.read? text with
  | none => .error (.config .malformed)
  | some t =>
    match ofTree t with
    | .error _ => .error (.config .malformed)
    | .ok c => do
      c.compileOptions.validate
      return c

def joinBase (c : Config) (uri : String) : String := Uri.joinBase c.baseUrl uri

/-- A relative schema path is meant from the directory of the configuration. -/
def relocate (c : Config) (path : String) : Config :=
  { c with metadata := c.metadata.map (Path.join (Path.parent path)) }

section

variable {m : Type → Type} [Monad m] (host : Host m)

def loadFrom (path : String) : m (Except QueryError Config) := do
  match ← host.read path with
  | .error fault => return .error (.file fault)
  | .ok text => return (ofToml text).map (·.relocate path)

/-- The configuration file in the working directory, or else the user's own. -/
def locate : m (Option String) := do
  if ← host.isPresent "odata-uri.toml" then return some "odata-uri.toml"
  else
    match ← host.configDirectory with
    | none => return none
    | some directory =>
      let path := Path.join (Path.join directory "odata-uri") "config.toml"
      if ← host.isPresent path then return some path else return none

def load : m (Except QueryError Config) := do
  match ← locate host with
  | some path => loadFrom host path
  | none => return .ok {}

end

end Config

end ODataQuery
