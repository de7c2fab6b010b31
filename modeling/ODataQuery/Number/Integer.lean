import ODataQuery.Number.Shortest

namespace ODataQuery.Integer

/-- The canonical numeral: a minus sign or none, and no leading zero. -/
def toText (n : Int) : String :=
  String.ofList ((if n < 0 then ['-'] else []) ++ Decimal.numeral n.natAbs)

def unsigned? (cs : List Char) : Option Nat :=
  if cs ≠ [] ∧ cs.all Char.isDigit then some (Decimal.ofDigits cs) else none

/-- Either sign and any number of leading zeros, but at least one digit and nothing else. -/
def parse? : List Char → Option Int
  | '-' :: cs => (unsigned? cs).map fun n => -(n : Int)
  | '+' :: cs => (unsigned? cs).map fun n => (n : Int)
  | cs => (unsigned? cs).map fun n => (n : Int)

/-- What a signed integer of 64 bits can hold. -/
def isWord (n : Int) : Bool := -0x8000000000000000 ≤ n && n < 0x8000000000000000

/-- Text that denotes a 64-bit integer. -/
def word? (cs : List Char) : Option Int := (parse? cs).filter isWord

end ODataQuery.Integer
