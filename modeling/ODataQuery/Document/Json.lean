import ODataQuery.Document.Tree
import ODataQuery.Number.Integer

namespace ODataQuery.Json

def isBlank (c : Char) : Bool := c == ' ' || c == '\t' || c == '\n' || c == '\r'

def skipBlanks (cs : List Char) : List Char := cs.dropWhile isBlank

def hexValue (c : Char) : Option Nat :=
  if '0' ≤ c ∧ c ≤ '9' then some (c.toNat - 0x30)
  else if 'a' ≤ c ∧ c ≤ 'f' then some (c.toNat - 0x57)
  else if 'A' ≤ c ∧ c ≤ 'F' then some (c.toNat - 0x37)
  else none

def hexNumber (cs : List Char) : Option Nat :=
  cs.foldl (fun n c => do return (← n) * 16 + (← hexValue c)) (some 0)

/-- The character that a one-letter escape stands for. -/
def shortEscape? (c : Char) : Option Char :=
  match c with
  | '"' => some '"'
  | '\\' => some '\\'
  | '/' => some '/'
  | 'b' => some '\x08'
  | 'f' => some '\x0c'
  | 'n' => some '\n'
  | 'r' => some '\r'
  | 't' => some '\t'
  | _ => none

/-- The code points of a string up to its closing quote, and the text behind.
An escape may give half of a surrogate pair. -/
def stringUnits : List Char → Option (List Nat × List Char)
  | [] => none
  | '"' :: rest => some ([], rest)
  | '\\' :: 'u' :: a :: b :: c :: d :: rest => do
    let n ← hexNumber [a, b, c, d]
    let (units, tail) ← stringUnits rest
    return (n :: units, tail)
  | '\\' :: e :: rest => do
    let c ← shortEscape? e
    let (units, tail) ← stringUnits rest
    return (c.toNat :: units, tail)
  | c :: rest =>
    if c.toNat < 0x20 || c == '\\' then none
    else do
      let (units, tail) ← stringUnits rest
      return (c.toNat :: units, tail)

/-- Join surrogate pairs; a half without its partner is no text. -/
def joinUnits : List Nat → Option (List Char)
  | [] => some []
  | n :: rest =>
    if 0xD800 ≤ n ∧ n < 0xDC00 then
      match rest with
      | m :: rest =>
        if 0xDC00 ≤ m ∧ m < 0xE000 then do
          let cs ← joinUnits rest
          return Char.ofNat (0x10000 + (n - 0xD800) * 0x400 + (m - 0xDC00)) :: cs
        else none
      | [] => none
    else if 0xDC00 ≤ n ∧ n < 0xE000 then none
    else do
      let cs ← joinUnits rest
      return Char.ofNat n :: cs

/-- A string whose opening quote has been read. -/
def string? (cs : List Char) : Option (Option String × List Char) := do
  let (units, rest) ← stringUnits cs
  return ((joinUnits units).map String.ofList, rest)

/-- A numeral: whole digits, fraction digits and exponent if it has either, and
the text behind it. -/
structure Numeral where
  negative : Bool
  whole : List Char
  /-- Present when the numeral has a point or an exponent. -/
  scaled : Option (List Char × Int)
  rest : List Char

/-- An optional exponent. -/
def exponent? (cs : List Char) : Option (Option Int × List Char) :=
  match cs with
  | e :: rest =>
    if e = 'e' ∨ e = 'E' then
      let (negative, rest) :=
        match rest with
        | '-' :: rest => (true, rest)
        | '+' :: rest => (false, rest)
        | _ => (false, rest)
      let digits := rest.takeWhile Char.isDigit
      if digits.isEmpty then none
      else
        let n : Int := Decimal.ofDigits digits
        some (some (if negative then -n else n), rest.dropWhile Char.isDigit)
    else some (none, cs)
  | [] => some (none, [])

/-- No plus sign, no leading zero, digits on both sides of a point. -/
def numeral? (cs : List Char) : Option Numeral := do
  let (negative, cs) :=
    match cs with
    | '-' :: rest => (true, rest)
    | _ => (false, cs)
  let whole := cs.takeWhile Char.isDigit
  let cs := cs.dropWhile Char.isDigit
  if whole.isEmpty || (whole.head? == some '0' && whole.length != 1) then none
  else
    match cs with
    | '.' :: cs =>
      let fraction := cs.takeWhile Char.isDigit
      if fraction.isEmpty then none
      else
        let (power, rest) ← exponent? (cs.dropWhile Char.isDigit)
        return ⟨negative, whole, some (fraction, power.getD 0), rest⟩
    | _ =>
      let (power, rest) ← exponent? cs
      return ⟨negative, whole, power.map ([], ·), rest⟩

/-- A whole numeral is an integer when 64 bits hold it, signed below zero and
unsigned above; any other number is a double, and so is minus zero. -/
def Numeral.tree (n : Numeral) : Tree :=
  let real (fraction : List Char) (power : Int) : Tree :=
    let pattern := Decimal.quick n.whole fraction power
    if pattern = Binary64.infinityPattern then .fault .unreadable
    else .float (.signed n.negative pattern)
  match n.scaled with
  | some (fraction, power) => real fraction power
  | none =>
    let value := Decimal.ofDigits n.whole
    if n.negative then
      if value = 0 ∨ 0x8000000000000000 < value then real [] 0 else .int (-value)
    else if value < 0x10000000000000000 then .int value
    else real [] 0

/-- The greatest nesting of containers. A deeper one counts as unreadable. -/
def nestingLimit : Nat := 127

/-- A container at a depth, once its text has been read. -/
def container (depth : Nat) (t : Tree) (rest : Option (List Char)) :
    Tree × Option (List Char) :=
  if depth < nestingLimit then (t, rest)
  else (.fault (if rest.isSome then .unreadable else .broken), rest)

/-- The text behind a fixed word. -/
def word (name : List Char) (t : Tree) (cs : List Char) : Tree × Option (List Char) :=
  if name.isPrefixOf cs then (t, some (cs.drop name.length)) else (.fault .broken, none)

mutual

/-- A value and the text behind it, which is absent when the value is broken.
Each step takes a character, so `fuel` above the text's length never runs out. -/
def value (fuel depth : Nat) (cs : List Char) : Tree × Option (List Char) :=
  match fuel with
  | 0 => (.fault .broken, none)
  | fuel + 1 =>
    match skipBlanks cs with
    | [] => (.fault .broken, none)
    | c :: rest =>
      if c = '{' then
        match skipBlanks rest with
        | '}' :: rest => container depth (.record []) (some rest)
        | rest =>
          let (ms, rest) := members fuel (depth + 1) rest
          container depth (.record ms) rest
      else if c = '[' then
        match skipBlanks rest with
        | ']' :: rest => container depth (.list []) (some rest)
        | rest =>
          let (ts, rest) := items fuel (depth + 1) rest
          container depth (.list ts) rest
      else if c = '"' then
        match string? rest with
        | some (some s, rest) => (.text s, some rest)
        | some (none, rest) => (.fault .unreadable, some rest)
        | none => (.fault .broken, none)
      else if c = 'n' then word ['n', 'u', 'l', 'l'] .null (c :: rest)
      else if c = 't' then word ['t', 'r', 'u', 'e'] (.bool true) (c :: rest)
      else if c = 'f' then word ['f', 'a', 'l', 's', 'e'] (.bool false) (c :: rest)
      else
        match numeral? (c :: rest) with
        | some n => (n.tree, some n.rest)
        | none => (.fault .broken, none)

/-- Items from the first one on, through the closing bracket. -/
def items (fuel depth : Nat) (cs : List Char) : List Tree × Option (List Char) :=
  match fuel with
  | 0 => ([.fault .broken], none)
  | fuel + 1 =>
    match value fuel depth cs with
    | (t, none) => ([t], none)
    | (t, some rest) =>
      match skipBlanks rest with
      | ',' :: rest => let (ts, rest) := items fuel depth rest; (t :: ts, rest)
      | ']' :: rest => ([t], some rest)
      | _ => ([t, .fault .broken], none)

/-- Members from the first name on, through the closing brace. -/
def members (fuel depth : Nat) (cs : List Char) :
    List (Option String × Tree) × Option (List Char) :=
  match fuel with
  | 0 => ([(none, .fault .broken)], none)
  | fuel + 1 =>
    match skipBlanks cs with
    | '"' :: rest =>
      match string? rest with
      | none => ([(none, .fault .broken)], none)
      | some (name, rest) =>
        match skipBlanks rest with
        | ':' :: rest =>
          match value fuel depth rest with
          | (t, none) => ([(name, t)], none)
          | (t, some rest) =>
            match skipBlanks rest with
            | ',' :: rest => let (ms, rest) := members fuel depth rest; ((name, t) :: ms, rest)
            | '}' :: rest => ([(name, t)], some rest)
            | _ => ([(name, t), (none, .fault .broken)], none)
        | _ => ([(name, .fault .broken)], none)
    | _ => ([(none, .fault .broken)], none)

end

/-- The tree of a text, and whether nothing but blanks follows it. -/
def read (s : String) : Tree × Bool :=
  let cs := s.toList
  match value (cs.length + 1) 0 cs with
  | (t, some rest) => (t, (skipBlanks rest).isEmpty)
  | (t, none) => (t, false)

def hexDigit (n : Nat) : Char := if n < 10 then Char.ofNat (0x30 + n) else Char.ofNat (0x57 + n)

def escapeChar (c : Char) : List Char :=
  match c with
  | '"' => ['\\', '"']
  | '\\' => ['\\', '\\']
  | '\n' => ['\\', 'n']
  | '\r' => ['\\', 'r']
  | '\t' => ['\\', 't']
  | '\x08' => ['\\', 'b']
  | '\x0c' => ['\\', 'f']
  | c =>
    if c.toNat < 0x20 then
      ['\\', 'u', '0', '0', hexDigit (c.toNat / 16), hexDigit (c.toNat % 16)]
    else [c]

def quoted (s : String) : String := String.ofList ('"' :: s.toList.flatMap escapeChar ++ ['"'])

mutual

/-- A double that is not finite is null; a fault has no text. -/
def write : Tree → String
  | .null => "null"
  | .bool b => if b then "true" else "false"
  | .int n => Integer.toText n
  | .float x => x.toJson?.getD "null"
  | .text s => quoted s
  | .list ts => "[" ++ ",".intercalate (writeItems ts) ++ "]"
  | .record ms => "\x7b" ++ ",".intercalate (writeMembers ms) ++ "\x7d"
  | .fault _ => ""

def writeItems : List Tree → List String
  | [] => []
  | t :: ts => write t :: writeItems ts

def writeMembers : List (Option String × Tree) → List String
  | [] => []
  | (name, t) :: ms => (quoted (name.getD "") ++ ":" ++ write t) :: writeMembers ms

end

end ODataQuery.Json
