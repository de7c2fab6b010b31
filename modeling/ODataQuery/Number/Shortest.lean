import ODataQuery.Number.Decimal

/-!
# Shortest decimals

The shortest decimal of a double is the one with the fewest digits among those
that round to it and, of those, the closest. All reals that round to a double
form an interval that holds its ends exactly when the mantissa is even. On the
coarsest decimal grid with a point inside, one of the two neighbours of the
value is such a point.
-/

namespace ODataQuery

/-- Which of two equally close decimals is taken. -/
inductive Tie where
  | up
  | even
  deriving DecidableEq, Repr

namespace Decimal

/-- The reals that round to `value / den`, as numerators over `den`. -/
structure Rounding where
  low : Nat
  value : Nat
  high : Nat
  den : Nat
  closed : Bool

/-- Below a power of two the neighbours are twice as dense, so the lower half
step is half as long there. -/
def Rounding.of (mantissa : Nat) (exponent : Int) : Rounding :=
  let low := if mantissa = Binary64.leadingBit ∧ -1074 < exponent then 4 * mantissa - 1 else 4 * mantissa - 2
  let r := Binary64.overPower 2 (2 - exponent) 1 1
  ⟨low * r.1, 4 * mantissa * r.1, (4 * mantissa + 2) * r.1, r.2, mantissa % 2 = 0⟩

/-- The same reals counted in steps of `10 ^ grid`. -/
def Rounding.onGrid (r : Rounding) (grid : Int) : Rounding :=
  let s := Binary64.overPower 10 grid 1 1
  ⟨r.low * s.1, r.value * s.1, r.high * s.1, r.den * s.2, r.closed⟩

def Rounding.holds (r : Rounding) (n : Nat) : Bool :=
  if r.closed then r.low ≤ n * r.den && n * r.den ≤ r.high
  else r.low < n * r.den && n * r.den < r.high

/-- The neighbour of the value on the unit grid that rounds to it, if any. -/
def Rounding.neighbour? (r : Rounding) (tie : Tie) : Option Nat :=
  let n := r.value / r.den
  match r.holds n, r.holds (n + 1) with
  | false, false => none
  | true, false => some n
  | false, true => some (n + 1)
  | true, true =>
    let twice := 2 * (r.value % r.den)
    if twice < r.den then some n
    else if r.den < twice then some (n + 1)
    else match tie with
      | .up => some (n + 1)
      | .even => some (if n % 2 = 0 then n else n + 1)

/-- Finer and finer grids, from `10 ^ grid` on. -/
def search (tie : Tie) (r : Rounding) : Nat → Int → Decimal
  | 0, grid => let s := r.onGrid grid; ⟨s.value / s.den, grid⟩
  | fuel + 1, grid =>
    match (r.onGrid grid).neighbour? tie with
    | some n => ⟨n, grid⟩
    | none => search tie r fuel (grid - 1)

/-- The search begins above the value, with `0.30103` for the logarithm of two,
and seventeen digits always suffice. -/
def shortest (tie : Tie) (mantissa : Nat) (exponent : Int) : Decimal :=
  if mantissa = 0 then ⟨0, 0⟩
  else
    search tie (.of mantissa exponent) 21 (((mantissa.log2 : Int) + exponent + 1) * 30103 / 100000 + 1)

def numeral (n : Nat) : List Char := Nat.toDigits 10 n

/-- All digits and a point where one is needed, never an exponent. -/
def positional (d : Decimal) : List Char :=
  let digits := numeral d.digits
  match d.exponent with
  | .ofNat n => digits ++ List.replicate n '0'
  | .negSucc n =>
    let places := n + 1
    if places < digits.length then
      digits.take (digits.length - places) ++ '.' :: digits.drop (digits.length - places)
    else '0' :: '.' :: (List.replicate (places - digits.length) '0' ++ digits)

/-- One digit before the point and the exponent with its sign. -/
def scientific (d : Decimal) : List Char :=
  let digits := numeral d.digits
  let power := d.exponent + digits.length - 1
  digits.take 1 ++ (if digits.length = 1 then [] else '.' :: digits.drop 1) ++
    'e' :: (if power < 0 then '-' else '+') :: numeral power.natAbs

/-- Positional from a hundred-thousandth up to `10 ^ 16`, with `.0` behind a
whole number, and scientific outside. -/
def mixed (d : Decimal) : List Char :=
  let power := d.exponent + (numeral d.digits).length - 1
  if -5 ≤ power ∧ power < 16 then
    if 0 ≤ d.exponent then d.positional ++ ['.', '0'] else d.positional
  else d.scientific

end Decimal

namespace Binary64

def sign (x : Binary64) : List Char := if x.isNegative then ['-'] else []

/-- The positional text, in which a tie goes up. -/
def toText (x : Binary64) : String :=
  match x.magnitude with
  | .finite m q => String.ofList (x.sign ++ (Decimal.shortest .up m q).positional)
  | .infinite => String.ofList (x.sign ++ ['i', 'n', 'f'])
  | .notANumber => "NaN"

/-- The text as a JSON number, in which a tie goes to the even digit; what is
not finite has none. -/
def toJson? (x : Binary64) : Option String :=
  match x.magnitude with
  | .finite m q => some (String.ofList (x.sign ++ (Decimal.shortest .even m q).mixed))
  | _ => none

end Binary64

end ODataQuery
