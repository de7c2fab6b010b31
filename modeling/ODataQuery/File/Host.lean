import ODataQuery.Error

namespace ODataQuery

/-- What a program asks of the machine it runs on. -/
structure Host (m : Type → Type) where
  read : String → m (Except FileFault String)
  /-- Whether a path leads to a file or a directory. -/
  isPresent : String → m Bool
  stdin : m String
  environment : String → m (Option String)
  /-- The directory of the user's configurations. -/
  configDirectory : m (Option String)

/-- Files by their paths below the working directory. -/
structure FileStore where
  files : List (List String × String)

namespace FileStore

def ofList (files : List (String × String)) : FileStore :=
  ⟨files.map fun f => ((f.1.toList.splitOn '/').map String.ofList, f.2)⟩

inductive Entry where
  | file (content : String)
  | directory

/-- A directory is there when a file is below it; so is the working directory. -/
def entry? (s : FileStore) (path : List String) : Option Entry :=
  match s.files.lookup path with
  | some content => some (.file content)
  | none => if path.isEmpty || s.files.any (path.isPrefixOf ·.1) then some .directory else none

/-- Go from a directory along names. Nothing is known above the working
directory. -/
def find (s : FileStore) (here : List String) : List String → Except FileFault Entry
  | [] =>
    match s.entry? here with
    | some e => .ok e
    | none => .error .notFound
  | name :: rest =>
    match s.entry? here with
    | none => .error .notFound
    | some (.file _) => .error .notDirectory
    | some .directory =>
      if name = "" ∨ name = "." then s.find here rest
      else if name = ".." then
        if here.isEmpty then if rest.isEmpty then .ok .directory else .error .notFound
        else s.find here.dropLast rest
      else s.find (here ++ [name]) rest

def lookup (s : FileStore) (path : String) : Except FileFault Entry :=
  match path.toList with
  | [] => .error .notFound
  | '/' :: rest => if rest.all (· == '/') then .ok .directory else .error .notFound
  | cs => s.find [] ((cs.splitOn '/').map String.ofList)

def read (s : FileStore) (path : String) : Except FileFault String :=
  match s.lookup path with
  | .ok (.file content) => .ok content
  | .ok .directory => .error .isDirectory
  | .error fault => .error fault

/-- The machine with these files, this input and these variables. -/
def host (s : FileStore) (stdin : String) (environment : List (String × String))
    (configDirectory : Option String) : Host Id where
  read := s.read
  isPresent path := (s.lookup path).isOk
  stdin := stdin
  environment name := environment.lookup name
  configDirectory := configDirectory

end FileStore

end ODataQuery
