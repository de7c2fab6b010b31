import ODataQuery.Dialect

/-!
# Command-line arguments

An argument is an option, the value of the option before it, or an operand.
Options may be long (`--name value`, `--name=value`) or a cluster of letters
whose last may take a value (`-n value`, `-nvalue`, `-n=value`). Behind `--` all
are operands. No option is given twice.
-/

namespace ODataQuery

/-- An option: its names and, when it takes a value, which values it takes. -/
structure Switch where
  long : String
  short : Option Char
  accepts : Option (String → Bool)

/-- Why arguments do not lead to a run. -/
inductive Stop where
  | misuse
  | help
  | version
  deriving DecidableEq, Repr

/-- The options given, by their long names, and the operands. -/
structure Given where
  values : List (String × String) := []
  operands : List String := []

namespace Given

def value? (g : Given) (name : String) : Option String := g.values.lookup name

/-- Take an option in. Asking for help or the version ends the scan. -/
def add (g : Given) (s : Switch) (value : String) : Except Stop Given :=
  if s.long = "help" then .error .help
  else if s.long = "version" then .error .version
  else if (g.value? s.long).isSome then .error .misuse
  else if s.accepts.all (· value) then .ok { g with values := g.values ++ [(s.long, value)] }
  else .error .misuse

end Given

namespace Arguments

/-- A hyphen alone is an operand. -/
def isOption (arg : String) : Bool := arg.toList.head? == some '-' && arg != "-"

/-- The switches of a cluster. The last one may wait for its value. -/
def cluster (switches : List Switch) (g : Given) : List Char → Except Stop (Given × Option Switch)
  | [] => .ok (g, none)
  | c :: rest =>
    match switches.find? (·.short == some c) with
    | none => .error .misuse
    | some s =>
      if s.accepts.isNone then do
        let g ← g.add s ""
        cluster switches g rest
      else
        match rest with
        | [] => .ok (g, some s)
        | '=' :: value => do return (← g.add s (String.ofList value), none)
        | value => do return (← g.add s (String.ofList value), none)

/-- A long switch with the value that is attached to it. -/
def long (switches : List Switch) (g : Given) (body : List Char) :
    Except Stop (Given × Option Switch) :=
  let name := String.ofList (body.takeWhile (· != '='))
  let value := body.dropWhile (· != '=')
  match switches.find? (·.long == name) with
  | none => .error .misuse
  | some s =>
    match s.accepts, value with
    | none, [] => do return (← g.add s "", none)
    | none, _ :: _ => .error .misuse
    | some _, [] => .ok (g, some s)
    | some _, _ :: value => do return (← g.add s (String.ofList value), none)

/-- An option argument, without the value that may follow it. -/
def option (switches : List Switch) (g : Given) (arg : String) :
    Except Stop (Given × Option Switch) :=
  match arg.toList with
  | '-' :: '-' :: body => long switches g body
  | _ :: body => cluster switches g body
  | [] => .error .misuse

/-- Take operands in; there is room for one. -/
def addOperands (g : Given) (args : List String) : Except Stop Given :=
  if (g.operands ++ args).length ≤ 1 then .ok { g with operands := g.operands ++ args }
  else .error .misuse

/-- Scan the arguments of a command. `waiting` is a switch without its value. -/
def scan (switches : List Switch) (g : Given) (waiting : Option Switch) :
    List String → Except Stop Given
  | [] => if waiting.isSome then .error .misuse else .ok g
  | arg :: rest =>
    match waiting with
    | some s =>
      if isOption arg then .error .misuse
      else do
        let g ← g.add s arg
        scan switches g none rest
    | none =>
      if arg = "--" then addOperands g rest
      else if isOption arg then do
        let (g, waiting) ← option switches g arg
        scan switches g waiting rest
      else do
        let g ← addOperands g [arg]
        scan switches g none rest

/-- Scan up to the name of a command, and give what stands behind it. -/
def scanToCommand (switches : List Switch) (g : Given) (waiting : Option Switch) :
    List String → Except Stop (Given × String × List String)
  | [] => .error .misuse
  | arg :: rest =>
    match waiting with
    | some s =>
      if isOption arg then .error .misuse
      else do
        let g ← g.add s arg
        scanToCommand switches g none rest
    | none =>
      if isOption arg then do
        let (g, waiting) ← option switches g arg
        scanToCommand switches g waiting rest
      else .ok (g, arg, rest)

end Arguments

end ODataQuery
