import ODataQuery.Error
import ODataQuery.Query.Basic
import ODataQuery.Text.Parser
import ODataQuery.Text.Percent

namespace ODataQuery

abbrev OptionMap := OrderedMap (Option ParamValue)

namespace OptionMap

/-- The entries of one option: none for an absent value, one for each element of
a list. -/
def pairs (name : String) : Option ParamValue → List (String × String)
  | none => []
  | some (.scalar text) => [(name, text)]
  | some (.list texts) => texts.map (name, ·)

/-- All entries in order, with values as they are meant. -/
def expanded (m : OptionMap) : List (String × String) :=
  m.entries.flatMap fun e => pairs e.1 e.2

def encode (m : OptionMap) : String :=
  "&".intercalate (m.expanded.map fun e => e.1 ++ "=" ++ Percent.encodeComponent e.2)

end OptionMap

namespace QueryOptions

def faultText : Utf8.Fault → String
  | .invalid offset length =>
    "invalid utf-8 sequence of " ++ Integer.toText length ++ " bytes from index " ++
      Integer.toText offset
  | .incomplete offset => "incomplete utf-8 byte sequence from index " ++ Integer.toText offset

def decodeComponent (s : String) : Except QueryError String :=
  match Percent.decode s.toList with
  | .ok cs => .ok (String.ofList cs)
  | .error fault => .error (.invalidValue "uri component" (faultText fault))

/-- An option is a name alone or a name, an equals sign and a value. -/
abbrev Entry := List Char × Option (List Char)

def option : Parser Entry :=
  .pair (.takeSome fun c => c != '=' && c != '&')
    (.optional (.preceded (.char '=') (.takeWhile (· != '&'))))

/-- Options between ampersands. Nothing need stand between two of them. -/
def optionList : Parser (List (Option Entry)) :=
  .separatedList (.char '&') (.optional option)

def decodeEntry (e : Entry) : Except QueryError (String × String) := do
  let name ← decodeComponent (String.ofList e.1)
  let value ← decodeComponent (String.ofList (e.2.getD []))
  return (name, value)

/-- Where a rest of the options begins, in bytes. -/
def position (query : String) (rest : List Char) : Nat :=
  query.utf8ByteSize - (String.ofList rest).utf8ByteSize

/-- Names and values in order. A segment without a name is dropped when it is empty and refused
when it has a value. All of the text is read before anything is decoded. -/
def parse (query : String) : Except QueryError (List (String × String)) :=
  match optionList.run query.toList with
  | .ok (entries, []) => (entries.filterMap id).mapM decodeEntry
  | .ok (_, rest) =>
    .error (.parse (position query rest)
      ("Unexpected trailing content: '" ++ String.ofList rest ++ "'"))
  | .error m => .error (.parse (position query m.rest) ("Parse failed: " ++ m.wanted.name))

/-- One leading `?` is not part of the options. -/
def decode (query : String) : Except QueryError (List (String × String)) :=
  match query.toList with
  | '?' :: rest => parse (String.ofList rest)
  | _ => parse query

end QueryOptions

end ODataQuery
