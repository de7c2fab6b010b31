import ODataQuery.Query.Options
import ODataQuery.Text.Blank

namespace ODataQuery

structure Uri where
  resource : String
  options : List (String × String)
  deriving DecidableEq, Repr

namespace Uri

/-- The resource is all before the first `?`; outer blanks do not count. -/
def parse (s : String) : Except QueryError Uri := do
  let cs := Text.strip Text.isBlank s.toList
  let resource := String.ofList (cs.takeWhile (· != '?'))
  match cs.dropWhile (· != '?') with
  | _ :: query => return ⟨resource, ← QueryOptions.parse (String.ofList query)⟩
  | [] => return ⟨resource, []⟩

/-- The first value of an option. -/
def option? (u : Uri) (name : String) : Option String := u.options.lookup name

/-- Exactly one slash stands between the two. -/
def joinBase (base : Option String) (uri : String) : String :=
  match base with
  | none => uri
  | some base =>
    String.ofList (base.toList.reverse.dropWhile (· == '/')).reverse ++ "/" ++
      String.ofList (uri.toList.dropWhile (· == '/'))

end Uri

end ODataQuery
