import ODataQuery.Arguments
import ODataQuery.Config

namespace ODataQuery

/-- How a run ends. -/
structure Outcome where
  code : UInt8
  stdout : String := ""
  stderr : String := ""
  deriving DecidableEq, Repr

structure CompileArguments where
  /-- The query document, or `-` for the standard input. -/
  query : String
  metadata : Option String
  dialect : Option Dialect
  baseUrl : Option String

inductive Command where
  | compile (args : CompileArguments)
  | explain (args : CompileArguments)
  | decode (uri : String)

structure Invocation where
  config : Option String
  command : Command

namespace Invocation

def commonSwitches : List Switch :=
  [⟨"verbose", some 'v', none⟩, ⟨"config", none, some (· != "")⟩, ⟨"help", some 'h', none⟩]

def topSwitches : List Switch := commonSwitches ++ [⟨"version", some 'V', none⟩]

def compileSwitches : List Switch :=
  commonSwitches ++ [
    ⟨"metadata", some 'm', some (· != "")⟩,
    ⟨"dialect", some 'd', some fun s => (Dialect.parse s).isOk⟩,
    ⟨"base-url", some 'b', some fun _ => true⟩]

def commandNames : List String := ["compile", "explain", "decode", "help"]

/-- Help names at most one command. -/
def help : List String → Stop
  | [] => .help
  | [name] => if name ∈ commandNames then .help else .misuse
  | _ => .misuse

/-- The schema may also be named by the environment, if not by an empty text. -/
def compileArguments (g : Given) (inherited : Option String) : Except Stop CompileArguments :=
  match g.value? "metadata" <|> inherited, g.operands with
  | some "", _ => .error .misuse
  | metadata, [query] =>
    .ok ⟨query, metadata, (g.value? "dialect").bind fun s => (Dialect.parse s).toOption,
      g.value? "base-url"⟩
  | _, _ => .error .misuse

/-- Options that belong to no command may stand before or behind its name; the
one behind it counts. -/
def parse (args : List String) (inherited : Option String) : Except Stop Invocation := do
  let (top, name, rest) ← Arguments.scanToCommand topSwitches {} none args
  let config (g : Given) : Option String := g.value? "config" <|> top.value? "config"
  match name with
  | "compile" =>
    let g ← Arguments.scan compileSwitches {} none rest
    return ⟨config g, .compile (← compileArguments g inherited)⟩
  | "explain" =>
    let g ← Arguments.scan compileSwitches {} none rest
    return ⟨config g, .explain (← compileArguments g inherited)⟩
  | "decode" =>
    let g ← Arguments.scan commonSwitches {} none rest
    match g.operands with
    | [uri] => return ⟨config g, .decode uri⟩
    | _ => throw .misuse
  | "help" => throw (help rest)
  | _ => throw .misuse

end Invocation

/-- An error with the cause behind it. -/
def QueryError.chain (e : QueryError) : String :=
  match e with
  | .file fault => e.message ++ ": " ++ fault.message
  | _ => e.message

def DocumentFault.suffix : DocumentFault → String
  | .malformed => ""
  | fault => ": " ++ fault.message

namespace CommandLine

/-- The report on a URI. -/
def report (uri : String) : Except QueryError String := do
  let parsed ← Uri.parse uri
  let options := parsed.options.map fun o => "  " ++ o.1 ++ " = " ++ o.2 ++ "\n"
  return "OData URI\n\nURI: " ++ uri ++ "\nResource: " ++ parsed.resource ++ "\n" ++
    (if options.isEmpty then "" else "\nQuery options:\n" ++ String.join options)

section

variable {m : Type → Type} [Monad m]

/-- Word an error, with a context in front. -/
def explained {α : Type} (context : String) (action : m (Except QueryError α)) :
    ExceptT String m α :=
  ExceptT.mk do return (← action).mapError fun e => context ++ e.chain

variable (host : Host m)

def loadConfig : Option String → ExceptT String m Config
  | none => explained "" (Config.load host)
  | some path => explained ("failed to load config " ++ path ++ ": ") (Config.loadFrom host path)

def readText (source : String) : ExceptT String m String :=
  if source = "-" then ExceptT.lift host.stdin
  else ExceptT.mk do
    return (← host.read source).mapError fun fault =>
      "failed to read " ++ source ++ ": " ++ fault.message

def readQuery (source : String) : ExceptT String m EntityQuery := do
  match Json.decode EntityQuery.ofTree (← readText host source) with
  | .ok q => return q
  | .error fault => throw ("invalid query document " ++ source ++ fault.suffix)

def loadMetadata : Option String → ExceptT String m Metadata
  | none => return .absent .none
  | some path =>
    return .schema (← explained ("failed to load metadata " ++ path ++ ": ") (Schema.load host path))

def compile (config : Option String) (args : CompileArguments) : ExceptT String m String := do
  let config ← loadConfig host config
  let config : Config := { config with
    metadata := args.metadata <|> config.metadata
    dialect := args.dialect <|> config.dialect
    baseUrl := args.baseUrl <|> config.baseUrl }
  let q ← readQuery host args.query
  let metadata ← loadMetadata host config.metadata
  let uri ← explained "" (pure (q.compile metadata config.compileOptions))
  return config.joinBase uri

/-- What a run prints: the URI of a query document, the report on that URI, or the report on a
URI that is given. -/
def perform (i : Invocation) : ExceptT String m String := do
  match i.command with
  | .compile args => return (← compile host i.config args) ++ "\n"
  | .explain args => explained "" (pure (report (← compile host i.config args)))
  | .decode uri => explained "" (pure (report uri))

def run (args : List String) : m Outcome := do
  match Invocation.parse args (← host.environment "ODATA_URI_METADATA") with
  | .error .misuse => return ⟨2, "", ""⟩
  | .error .help => return ⟨0, "", ""⟩
  | .error .version => return ⟨0, "odata-uri 0.3.0\n", ""⟩
  | .ok i =>
    match ← (perform host i).run with
    | .ok text => return ⟨0, text, ""⟩
    | .error text => return ⟨1, "", "Error: " ++ text ++ "\n"⟩

end

end CommandLine

end ODataQuery
