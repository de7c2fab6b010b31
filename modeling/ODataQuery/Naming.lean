import ODataQuery.Text.Capital

namespace ODataQuery

inductive NamingConvention where
  /-- The names are the same on both sides. -/
  | none
  /-- The server writes the first letter as a capital. -/
  | camelCase
  deriving DecidableEq, Repr, Inhabited

namespace NamingConvention

def serverName : NamingConvention → String → String
  | .none, name => name
  | .camelCase, name => Text.capitalize name

def name : NamingConvention → String
  | .none => "none"
  | .camelCase => "camel_case"

def ofName? : String → Option NamingConvention
  | "none" => some .none
  | "camel_case" => some .camelCase
  | _ => Option.none

end NamingConvention

end ODataQuery
