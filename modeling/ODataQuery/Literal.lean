import ODataQuery.Error
import ODataQuery.Text.Blank
import ODataQuery.Value

/-!
# Literals

A value is written by its declared type. Null is `null` in every type and a list
has no form in any. Numbers may be given as text, which is trimmed first; text
of the string type is quoted, with every quote inside written twice.

The long form of a date wraps it in its type's name and quotes; a filter takes
the bare text instead. Every other type has one form.
-/

namespace ODataQuery

namespace DataType

def quote (s : String) : String :=
  String.ofList ('\'' :: s.toList.flatMap (fun c => if c = '\'' then ['\'', '\''] else [c]) ++ ['\''])

def invalid (t : DataType) (value : String) : QueryError := .invalidValue t.name value

/-- The timestamp that a value is or that its text spells. -/
def timestamp (t : DataType) : Value → Except QueryError Timestamp
  | .timestamp d => .ok d
  | .string s =>
    match Timestamp.parse? s with
    | some d => .ok d
    | none => .error (t.invalid s)
  | v => .error (t.invalid v.display)

/-- The 64-bit integer that a value denotes. A double counts when it is whole;
text counts when it is a numeral. -/
def integer (t : DataType) : Value → Except QueryError Int
  | .int n => .ok n.toInt
  | .float x =>
    match x.toInt?.filter Integer.isWord with
    | some n => .ok n
    | none => .error (t.invalid x.toText)
  | .string s =>
    match Integer.word? (Text.strip Text.isBlank s.toList) with
    | some n => .ok n
    | none => .error (t.invalid s)
  | v => .error (t.invalid v.display)

/-- Text of an integer within the type's bounds. -/
def bounded (t : DataType) (low high : Int) (v : Value) : Except QueryError String := do
  let n ← t.integer v
  if low ≤ n ∧ n ≤ high then return Integer.toText n else throw (t.invalid (Integer.toText n))

def finite (t : DataType) (x : Binary64) : Except QueryError String :=
  if x.isFinite then .ok x.toText else .error (t.invalid x.toText)

/-- Text of a number: an integer keeps every digit, all else passes through a
finite double. -/
def number (t : DataType) : Value → Except QueryError String
  | .int n => .ok (Integer.toText n.toInt)
  | .float x => t.finite x
  | .string s =>
    match Binary64.parse? (Text.strip Text.isBlank s.toList) with
    | some x => t.finite x
    | none => .error (t.invalid s)
  | v => .error (t.invalid v.display)

def isHexDigit (c : Char) : Bool :=
  c.isDigit || ('a' ≤ c && c ≤ 'f') || ('A' ≤ c && c ≤ 'F')

/-- Groups of 8, 4, 4, 4 and 12 hexadecimal digits between hyphens. -/
def isGuid (s : String) : Bool :=
  let groups := s.toList.splitOn '-'
  groups.map List.length == [8, 4, 4, 4, 12] && groups.all (·.all isHexDigit)

/-- Text between quotes behind a type name, as it was given. -/
def wrapped (t : DataType) (label : String) : Value → Except QueryError String
  | .string s => .ok (label ++ "'" ++ s ++ "'")
  | v => .error (t.invalid v.display)

/-- The literal of a value that is neither null nor a list. -/
def scalarForm (t : DataType) (v : Value) : Except QueryError String :=
  match t with
  | .string =>
    match v with
    | .string s => .ok (quote s)
    | .int _ | .float _ => .ok (quote v.display)
    | _ => .error (t.invalid v.display)
  | .int16 => t.bounded (-0x8000) 0x7FFF v
  | .int32 => t.bounded (-0x80000000) 0x7FFFFFFF v
  | .int64 => t.bounded (-0x8000000000000000) 0x7FFFFFFFFFFFFFFF v
  | .byte => t.bounded 0 255 v
  | .decimal | .double | .single => t.number v
  | .boolean =>
    match v with
    | .bool _ => .ok v.display
    | .string s => if s = "true" ∨ s = "false" then .ok s else .error (t.invalid s)
    | _ => .error (t.invalid v.display)
  | .dateTime => (t.timestamp v).map fun d => "datetime'" ++ d.utcText ++ "'"
  | .dateTimeOffset => (t.timestamp v).map fun d => "datetimeoffset'" ++ d.utcText ++ "'"
  | .time => t.wrapped "duration" v
  | .guid =>
    match v with
    | .string s => if isGuid s then .ok s else .error (t.invalid s)
    | _ => .error (t.invalid v.display)
  | .binary => t.wrapped "binary" v
  | .undefined => .ok v.display

/-- The literal with dates in their long form. -/
def longForm (t : DataType) (v : Value) : Except QueryError String :=
  match v with
  | .null => .ok "null"
  | .list _ => .error (t.invalid v.display)
  | _ => t.scalarForm v

/-- The literal as a filter holds it. -/
def literal (t : DataType) (v : Value) : Except QueryError String :=
  if t.isDate then
    match v with
    | .null => .ok "null"
    | _ => (t.timestamp v).map Timestamp.utcText
  else t.longForm v

end DataType

end ODataQuery
