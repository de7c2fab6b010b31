import ODataQuery.Calendar.Timestamp
import ODataQuery.Number.Integer

namespace ODataQuery

inductive DataType where
  | string
  | int16
  | int32
  | int64
  | byte
  | decimal
  | double
  | single
  | boolean
  | dateTime
  | dateTimeOffset
  | time
  | guid
  | binary
  | undefined
  deriving DecidableEq, Repr, Inhabited

namespace DataType

def name : DataType → String
  | .string => "String"
  | .int16 => "Int16"
  | .int32 => "Int32"
  | .int64 => "Int64"
  | .byte => "Byte"
  | .decimal => "Decimal"
  | .double => "Double"
  | .single => "Single"
  | .boolean => "Boolean"
  | .dateTime => "DateTime"
  | .dateTimeOffset => "DateTimeOffset"
  | .time => "Time"
  | .guid => "Guid"
  | .binary => "Binary"
  | .undefined => "Undefined"

def all : List DataType :=
  [.string, .int16, .int32, .int64, .byte, .decimal, .double, .single, .boolean, .dateTime,
    .dateTimeOffset, .time, .guid, .binary, .undefined]

def ofName? (s : String) : Option DataType := all.find? (·.name == s)

/-- Whether the type carries a calendar date and a time of day. -/
def isDate : DataType → Bool
  | .dateTime | .dateTimeOffset => true
  | _ => false

theorem ofName?_name (t : DataType) : ofName? t.name = some t := by cases t <;> decide

end DataType

inductive Value where
  | null
  | bool (b : Bool)
  | int (n : Int64)
  | float (x : Binary64)
  | string (s : String)
  | list (items : List Value)
  | timestamp (t : Timestamp)

namespace Value

mutual

/-- The text that error messages show: strings bare, lists in brackets, a
timestamp in UTC. -/
def display : Value → String
  | .null => "null"
  | .bool b => if b then "true" else "false"
  | .int n => Integer.toText n.toInt
  | .float x => x.toText
  | .string s => s
  | .list items => "[" ++ ", ".intercalate (displayAll items) ++ "]"
  | .timestamp t => t.utcText

def displayAll : List Value → List String
  | [] => []
  | v :: vs => v.display :: displayAll vs

end

end Value

end ODataQuery
