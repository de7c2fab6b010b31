namespace ODataQuery.Utf8

def encodeChar (c : Char) : List UInt8 :=
  let n := c.toNat
  if n < 0x80 then [UInt8.ofNat n]
  else if n < 0x800 then [UInt8.ofNat (0xC0 + n / 0x40), UInt8.ofNat (0x80 + n % 0x40)]
  else if n < 0x10000 then
    [UInt8.ofNat (0xE0 + n / 0x1000), UInt8.ofNat (0x80 + n / 0x40 % 0x40),
      UInt8.ofNat (0x80 + n % 0x40)]
  else
    [UInt8.ofNat (0xF0 + n / 0x40000), UInt8.ofNat (0x80 + n / 0x1000 % 0x40),
      UInt8.ofNat (0x80 + n / 0x40 % 0x40), UInt8.ofNat (0x80 + n % 0x40)]

def encode (cs : List Char) : List UInt8 := cs.flatMap encodeChar

/-- Why bytes are not UTF-8. Both forms carry the number of valid bytes before. -/
inductive Fault where
  /-- The sequence that begins here breaks off after `length` good bytes, at least one. -/
  | invalid (offset length : Nat)
  /-- The input ends inside the sequence that begins here. -/
  | incomplete (offset : Nat)
  deriving DecidableEq, Repr

/-- A sequence of which `seen` bytes have been read: how many are still to come,
the bounds of the next one, and the value so far. -/
structure Partial where
  seen : Nat
  more : Nat
  low : Nat
  high : Nat
  value : Nat
  deriving DecidableEq, Repr

/-- What a first byte begins. The narrowed bounds keep out overlong forms,
surrogates and values above U+10FFFF. -/
def first? (b : UInt8) : Option Partial :=
  let n := b.toNat
  if n < 0x80 then some ⟨1, 0, 0x80, 0xBF, n⟩
  else if n < 0xC2 then none
  else if n < 0xE0 then some ⟨1, 1, 0x80, 0xBF, n - 0xC0⟩
  else if n = 0xE0 then some ⟨1, 2, 0xA0, 0xBF, 0⟩
  else if n = 0xED then some ⟨1, 2, 0x80, 0x9F, 0xD⟩
  else if n < 0xF0 then some ⟨1, 2, 0x80, 0xBF, n - 0xE0⟩
  else if n = 0xF0 then some ⟨1, 3, 0x90, 0xBF, 0⟩
  else if n < 0xF4 then some ⟨1, 3, 0x80, 0xBF, n - 0xF0⟩
  else if n = 0xF4 then some ⟨1, 3, 0x80, 0x8F, 4⟩
  else none

/-- One continuation byte more, if it is within bounds. -/
def Partial.next? (p : Partial) (b : UInt8) : Option Partial :=
  if p.low ≤ b.toNat ∧ b.toNat ≤ p.high then
    some ⟨p.seen + 1, p.more - 1, 0x80, 0xBF, p.value * 0x40 + b.toNat % 0x40⟩
  else none

/-- Read on behind an unfinished sequence that begins at `offset`. -/
def decodeFrom (offset : Nat) (pending : Option Partial) :
    List UInt8 → Except Fault (List Char)
  | [] => if pending.isSome then .error (.incomplete offset) else .ok []
  | b :: rest =>
    let extended :=
      match pending with
      | none => first? b
      | some p => p.next? b
    match extended with
    | none => .error (.invalid offset (pending.elim 1 (·.seen)))
    | some p =>
      if p.more = 0 then do
        let cs ← decodeFrom (offset + p.seen) none rest
        return Char.ofNat p.value :: cs
      else decodeFrom offset (some p) rest

def decode (bytes : List UInt8) : Except Fault (List Char) := decodeFrom 0 none bytes

end ODataQuery.Utf8
