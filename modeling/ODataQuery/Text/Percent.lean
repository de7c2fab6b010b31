import ODataQuery.Text.Utf8

/-!
# Percent-encoding of a URI component

Letters, digits and `- _ . ! ~ * ' ( )` stand for themselves. Every other byte
of the UTF-8 form is written as `%` and two upper-case hexadecimal digits.
Decoding takes digits of either case, keeps a `%` that no two digits follow, and
never looks again at what it produced.
-/

namespace ODataQuery.Percent

def isUnreserved (b : UInt8) : Bool :=
  let n := b.toNat
  (0x41 ≤ n && n ≤ 0x5A) || (0x61 ≤ n && n ≤ 0x7A) || (0x30 ≤ n && n ≤ 0x39) ||
    n == 0x2D || n == 0x5F || n == 0x2E || n == 0x21 || n == 0x7E || n == 0x2A ||
    n == 0x27 || n == 0x28 || n == 0x29

/-- The upper-case digit of a value below sixteen. -/
def hexDigit (n : Nat) : Char :=
  if n < 10 then Char.ofNat (0x30 + n) else Char.ofNat (0x37 + n)

def encodeByte (b : UInt8) : List Char :=
  if isUnreserved b then [Char.ofNat b.toNat]
  else ['%', hexDigit (b.toNat / 16), hexDigit (b.toNat % 16)]

def encode (cs : List Char) : List Char := (Utf8.encode cs).flatMap encodeByte

def encodeComponent (s : String) : String := String.ofList (encode s.toList)

def hexValue (b : UInt8) : Option Nat :=
  let n := b.toNat
  if 0x30 ≤ n ∧ n ≤ 0x39 then some (n - 0x30)
  else if 0x41 ≤ n ∧ n ≤ 0x46 then some (n - 0x37)
  else if 0x61 ≤ n ∧ n ≤ 0x66 then some (n - 0x57)
  else none

/-- The byte that three bytes spell when they are an escape. -/
def escaped? (mark high low : UInt8) : Option UInt8 :=
  if mark = 0x25 then
    (hexValue high).bind fun x => (hexValue low).map fun y => UInt8.ofNat (x * 16 + y)
  else none

/-- One left-to-right pass that replaces each escape by its byte. Fewer than
three bytes hold no escape. -/
def unescape : List UInt8 → List UInt8
  | b :: h :: l :: rest =>
    match escaped? b h l with
    | some x => x :: unescape rest
    | none => b :: unescape (h :: l :: rest)
  | short => short

def decode (cs : List Char) : Except Utf8.Fault (List Char) :=
  Utf8.decode (unescape (Utf8.encode cs))

end ODataQuery.Percent
