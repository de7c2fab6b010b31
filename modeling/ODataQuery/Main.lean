import ODataQuery.CommandLine

namespace ODataQuery

/-- A directory read as a file and a file entered as a directory differ only in
the system's code. -/
def FileFault.ofError : IO.Error → FileFault
  | .noFileOrDirectory .. => .notFound
  | .inappropriateType _ code _ => if code = 21 then .isDirectory else .notDirectory
  | e => .other (toString e)

def machine : Host IO where
  read path := do
    try return .ok (← IO.FS.readFile path)
    catch e => return .error (.ofError e)
  isPresent path := do
    try
      let _ ← IO.FS.Handle.mk path .read
      return true
    catch _ => return false
  stdin := do (← IO.getStdin).readToEnd
  environment name := IO.getEnv name
  configDirectory := do
    match (← IO.getEnv "XDG_CONFIG_HOME").filter Path.isAbsolute with
    | some directory => return some directory
    | none => return (← IO.getEnv "HOME").map (Path.join · ".config")

end ODataQuery

def main (args : List String) : IO UInt32 := do
  let outcome ← ODataQuery.CommandLine.run ODataQuery.machine args
  IO.print outcome.stdout
  IO.eprint outcome.stderr
  return outcome.code.toUInt32
