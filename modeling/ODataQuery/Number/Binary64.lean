namespace ODataQuery

/-- A double is its 64-bit pattern. Its value, and the rounding of a ratio to the nearest double,
are exact integer arithmetic. -/
structure Binary64 where
  bits : UInt64
  deriving DecidableEq, Repr, Inhabited

namespace Binary64

/-- A value without its sign: `mantissa * 2 ^ exponent`, or one of the two
kinds that are no number on the line. -/
inductive Magnitude where
  | finite (mantissa : Nat) (exponent : Int)
  | infinite
  | notANumber
  deriving DecidableEq, Repr

/-- The pattern that the sign adds. -/
def signBit : Nat := 0x8000000000000000

/-- The leading bit of a normal mantissa, just above the fraction. Adding it to a
pattern raises the exponent field by one. -/
def leadingBit : Nat := 0x10000000000000

def isNegative (x : Binary64) : Bool := signBit ≤ x.bits.toNat

def magnitude (x : Binary64) : Magnitude :=
  let field : Nat := x.bits.toNat / leadingBit % 2048
  let fraction : Nat := x.bits.toNat % leadingBit
  if field = 2047 then if fraction = 0 then .infinite else .notANumber
  else if field = 0 then .finite fraction (-1074)
  else .finite (leadingBit + fraction) ((field : Int) - 1075)

def isFinite (x : Binary64) : Bool :=
  match x.magnitude with
  | .finite _ _ => true
  | _ => false

/-- The pattern of a magnitude with the sign put in. -/
def signed (negative : Bool) (pattern : Nat) : Binary64 :=
  ⟨UInt64.ofNat (if negative then signBit + pattern else pattern)⟩

def infinityPattern : Nat := 2047 * leadingBit

def notANumber : Binary64 := ⟨UInt64.ofNat (infinityPattern + leadingBit / 2)⟩

/-- The quotient to the nearest integer, a half to the even neighbour. -/
def divNearest (a b : Nat) : Nat :=
  let q := a / b
  let r := a % b
  if b < 2 * r ∨ (2 * r = b ∧ q % 2 = 1) then q + 1 else q

/-- `a / b` over a power, as a ratio again: the power multiplies whichever side
keeps both sides whole. -/
def overPower (base : Nat) (power : Int) (a b : Nat) : Nat × Nat :=
  match power with
  | .ofNat n => (a, b * Nat.pow base n)
  | .negSucc n => (a * Nat.pow base (n + 1), b)

/-- The pattern nearest to `num / den`: 53 significant bits, fewer below the
least normal number, and infinity from half a step above the greatest number.
The exponent field counts steps of the mantissa, so a mantissa that rounds up
to a power of two carries into the field by itself. -/
def ofRatio (num den : Nat) : Nat :=
  if num = 0 then 0
  else
    let e : Int := (num.log2 : Int) - den.log2
    let r := overPower 2 e num den
    let top := if r.1 < r.2 then e - 1 else e
    let exponent := max (top - 52) (-1074)
    let s := overPower 2 exponent num den
    min (divNearest s.1 s.2 + (exponent + 1074).toNat * leadingBit) infinityPattern

/-- The ratio that a finite magnitude denotes. -/
def toRatio (mantissa : Nat) (exponent : Int) : Nat × Nat :=
  overPower 2 (-exponent) mantissa 1

def ofInt (n : Int) : Binary64 := signed (n < 0) (ofRatio n.natAbs 1)

/-- The integer that a finite number is, if it is one. -/
def toInt? (x : Binary64) : Option Int :=
  match x.magnitude with
  | .finite mantissa exponent =>
    let r := toRatio mantissa exponent
    if r.1 % r.2 = 0 then
      let n : Int := r.1 / r.2
      some (if x.isNegative then -n else n)
    else none
  | _ => none

end Binary64

end ODataQuery
