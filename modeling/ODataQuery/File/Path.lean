namespace ODataQuery.Path

/-- Drop trailing slashes and trailing `.` names from a reversed path, but not
the root itself. -/
def trimEnd : List Char → List Char
  | '/' :: rest => if rest.isEmpty then ['/'] else trimEnd rest
  | '.' :: '/' :: rest => if rest.isEmpty then ['/'] else trimEnd rest
  | cs => cs

def isAbsolute (path : String) : Bool := path.toList.head? == some '/'

/-- The path without its last name. -/
def parent (path : String) : String :=
  String.ofList (trimEnd ((trimEnd path.toList.reverse).dropWhile (· != '/'))).reverse

/-- A path below a directory. An absolute path stands for itself. -/
def join (directory path : String) : String :=
  if isAbsolute path || directory.isEmpty then path
  else if directory.toList.getLast? == some '/' then directory ++ path
  else directory ++ "/" ++ path

def fileName (path : String) : List Char :=
  ((trimEnd path.toList.reverse).takeWhile (· != '/')).reverse

/-- What follows the last point of a file name, unless the point begins it. -/
def extension? (path : String) : Option String :=
  let reversed := (fileName path).reverse
  match reversed.dropWhile (· != '.') with
  | _ :: _ :: _ => some (String.ofList (reversed.takeWhile (· != '.')).reverse)
  | _ => none

end ODataQuery.Path
