import ODataQuery.Number.Binary64

/-!
# Reading decimal numbers

A decimal number is read in one of two ways. `nearest` gives the double closest
to it. `quick` keeps as many leading digits as 64 bits hold and scales them by
powers of ten in double arithmetic, so its last bit may be off. Both refuse
nothing; a number beyond the range becomes infinite.
-/

namespace ODataQuery

/-- `digits * 10 ^ exponent`. -/
structure Decimal where
  digits : Nat
  exponent : Int
  deriving DecidableEq, Repr

namespace Decimal

def digitValue (c : Char) : Nat := c.toNat - 0x30

def ofDigits (cs : List Char) : Nat := cs.foldl (fun n c => n * 10 + digitValue c) 0

/-- Outside these exponents the answer is infinity or zero whatever the digits:
`digits` has at most `log2 digits / 3 + 1` of them. -/
def nearest (d : Decimal) : Nat :=
  if d.digits = 0 then 0
  else if 310 < d.exponent then Binary64.infinityPattern
  else if d.exponent < -((d.digits.log2 / 3 : Nat) + 346 : Int) then 0
  else
    let r := Binary64.overPower 10 (-d.exponent) d.digits 1
    Binary64.ofRatio r.1 r.2

/-- An unsigned numeral: digits with at most one point among or beside them, and
an optional exponent. -/
def parts? (cs : List Char) : Option Decimal :=
  let whole := cs.takeWhile Char.isDigit
  let rest := cs.dropWhile Char.isDigit
  let point := rest.head? == some '.'
  let behind := if point then rest.tail else rest
  let fraction := if point then behind.takeWhile Char.isDigit else []
  let rest := if point then behind.dropWhile Char.isDigit else rest
  if whole.isEmpty && fraction.isEmpty then none
  else
    let digits := ofDigits (whole ++ fraction)
    match rest with
    | [] => some ⟨digits, -fraction.length⟩
    | e :: rest =>
      if e = 'e' ∨ e = 'E' then
        let (negative, power) :=
          match rest with
          | '-' :: power => (true, power)
          | '+' :: power => (false, power)
          | _ => (false, rest)
        if power.isEmpty || !power.all Char.isDigit then none
        else
          let n : Int := ofDigits power
          some ⟨digits, (if negative then -n else n) - fraction.length⟩
      else none

/-- The pattern of the product or quotient of two finite patterns. -/
def scale (pattern power : Nat) (divide : Bool) : Nat :=
  match (Binary64.signed false pattern).magnitude, (Binary64.signed false power).magnitude with
  | .finite m q, .finite n p =>
    let a := Binary64.toRatio m q
    let b := Binary64.toRatio n p
    if divide then Binary64.ofRatio (a.1 * b.2) (a.2 * b.1)
    else Binary64.ofRatio (a.1 * b.1) (a.2 * b.2)
  | _, _ => Binary64.infinityPattern

/-- Digits of a significand as long as it stays below `2 ^ 64`, with the digits
left over. -/
def significand (n : Nat) : List Char → Nat × List Char
  | [] => (n, [])
  | c :: cs =>
    let next := n * 10 + digitValue c
    if next < 0x10000000000000000 then significand next cs else (n, c :: cs)

/-- Scale by `10 ^ exponent`. Only powers up to 308 are doubles, so a smaller
number is divided by the greatest of them until the rest fits. -/
def quickScale (pattern : Nat) : Nat → Int → Nat
  | 0, _ => 0
  | fuel + 1, exponent =>
    if exponent.natAbs ≤ 308 then
      scale pattern (Binary64.ofRatio (Nat.pow 10 exponent.natAbs) 1) (exponent < 0)
    else if pattern = 0 then 0
    else if 0 ≤ exponent then Binary64.infinityPattern
    else quickScale (scale pattern (Binary64.ofRatio (Nat.pow 10 308) 1) true) fuel (exponent + 308)

/-- Whole digits that are dropped still count as places, and three divisions by
`10 ^ 308` take every significand to zero. -/
def quick (whole fraction : List Char) (exponent : Int) : Nat :=
  let (n, dropped) := significand 0 whole
  let (n, unused) := significand n fraction
  quickScale (Binary64.ofRatio n 1) 4
    (exponent + dropped.length - (fraction.length - unused.length : Nat))

end Decimal

/-- An optional sign, then `inf`, `infinity` or `nan` in any case, or a numeral,
which is read by `nearest`. -/
def Binary64.parse? (cs : List Char) : Option Binary64 :=
  let (negative, body) :=
    match cs with
    | '-' :: body => (true, body)
    | '+' :: body => (false, body)
    | _ => (false, cs)
  match body.map Char.toLower with
  | ['i', 'n', 'f'] => some (.signed negative infinityPattern)
  | ['i', 'n', 'f', 'i', 'n', 'i', 't', 'y'] => some (.signed negative infinityPattern)
  | ['n', 'a', 'n'] => some notANumber
  | _ => (Decimal.parts? body).map fun d => .signed negative d.nearest

end ODataQuery
