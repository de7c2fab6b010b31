import ODataQuery.Error

namespace ODataQuery

inductive Dialect where
  | v4
  | v401
  deriving DecidableEq, Repr, Inhabited

namespace Dialect

/-- The token for an operator's name. -/
def token : Dialect → String → String
  | .v4, key => if key = "contains" then "substringof" else key
  | .v401, key => key

def hasNativeIn : Dialect → Bool
  | .v4 => false
  | .v401 => true

def name : Dialect → String
  | .v4 => "v4"
  | .v401 => "v401"

/-- The name as documents hold it. -/
def ofName? : String → Option Dialect
  | "v4" => some .v4
  | "v401" => some .v401
  | _ => none

/-- A name or version number in any case of its letters. -/
def parse (s : String) : Except QueryError Dialect :=
  match s.map Char.toLower with
  | "v4" | "4" | "4.0" => .ok .v4
  | "v401" | "4.01" => .ok .v401
  | other => .error (.config (.unknownDialect other))

end Dialect

end ODataQuery
