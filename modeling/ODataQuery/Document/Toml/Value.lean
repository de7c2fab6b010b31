import ODataQuery.Calendar.Date
import ODataQuery.Document.Tree
import ODataQuery.Number.Integer

/-!
# TOML keys and scalars

Every reader takes the text from where it stands and gives the text behind what
it read. Line ends are single newlines here: a carriage return before a newline
has been dropped, and any other is no TOML.
-/

namespace ODataQuery.Toml

def isBlank (c : Char) : Bool := c == ' ' || c == '\t'

def skipBlanks (cs : List Char) : List Char := cs.dropWhile isBlank

/-- Tab, or a character that is no control. -/
def isPrintable (c : Char) : Bool := c == '\t' || (0x20 ≤ c.toNat && c.toNat != 0x7F)

/-- Drop a comment, which ends before its newline. -/
def skipComment (cs : List Char) : List Char :=
  match cs with
  | '#' :: rest => rest.dropWhile isPrintable
  | _ => cs

def hexValue (c : Char) : Option Nat :=
  if '0' ≤ c ∧ c ≤ '9' then some (c.toNat - 0x30)
  else if 'a' ≤ c ∧ c ≤ 'f' then some (c.toNat - 0x57)
  else if 'A' ≤ c ∧ c ≤ 'F' then some (c.toNat - 0x37)
  else none

/-- The character of an escape by number; surrogates are none. -/
def scalar? (digits : List Char) : Option Char := do
  let n ← digits.foldl (fun n c => do return (← n) * 16 + (← hexValue c)) (some 0)
  if n < 0xD800 ∨ (0xE000 ≤ n ∧ n < 0x110000) then some (Char.ofNat n) else none

def shortEscape? (c : Char) : Option Char :=
  match c with
  | 'b' => some '\x08'
  | 't' => some '\t'
  | 'n' => some '\n'
  | 'f' => some '\x0c'
  | 'r' => some '\r'
  | '"' => some '"'
  | '\\' => some '\\'
  | _ => none

/-- Put a character in front of a text already read. -/
def push (c : Option Char) (read : Option (List Char × List Char)) :
    Option (List Char × List Char) := do
  let c ← c
  let (cs, rest) ← read
  return (c :: cs, rest)

/-- A basic string behind its opening quote. -/
def basicString : List Char → Option (List Char × List Char)
  | [] => none
  | '"' :: rest => some ([], rest)
  | '\\' :: 'u' :: a :: b :: c :: d :: rest => push (scalar? [a, b, c, d]) (basicString rest)
  | '\\' :: 'U' :: a :: b :: c :: d :: e :: f :: g :: h :: rest =>
    push (scalar? [a, b, c, d, e, f, g, h]) (basicString rest)
  | '\\' :: c :: rest => push (shortEscape? c) (basicString rest)
  | c :: rest => if isPrintable c then push (some c) (basicString rest) else none

/-- A literal string behind its opening quote. -/
def literalString : List Char → Option (List Char × List Char)
  | [] => none
  | '\'' :: rest => some ([], rest)
  | c :: rest => if isPrintable c then push (some c) (literalString rest) else none

/-- The end of a string in triple quotes, at its first quote of at least three:
up to two quotes before the closing three belong to the text. -/
def closing (quote : Char) (cs : List Char) : Option (List Char × List Char) :=
  let extra := min ((cs.takeWhile (· == quote)).length - 3) 2
  if (cs.takeWhile (· == quote)).length < 3 then none
  else some (List.replicate extra quote, cs.drop (extra + 3))

/-- A basic string in triple quotes. `folding` holds behind a backslash that ends
a line, where blanks and newlines are dropped. -/
def basicLines (folding : Bool) : List Char → Option (List Char × List Char)
  | [] => none
  | '"' :: '"' :: '"' :: rest => closing '"' ('"' :: '"' :: '"' :: rest)
  | '\\' :: 'u' :: a :: b :: c :: d :: rest =>
    push (scalar? [a, b, c, d]) (basicLines false rest)
  | '\\' :: 'U' :: a :: b :: c :: d :: e :: f :: g :: h :: rest =>
    push (scalar? [a, b, c, d, e, f, g, h]) (basicLines false rest)
  | '\\' :: c :: rest =>
    if isBlank c || c == '\n' then
      if (skipBlanks (c :: rest)).head? == some '\n' then basicLines true rest else none
    else push (shortEscape? c) (basicLines false rest)
  | c :: rest =>
    if folding && (isBlank c || c == '\n') then basicLines true rest
    else if isPrintable c || c == '\n' then push (some c) (basicLines false rest)
    else none

def literalLines : List Char → Option (List Char × List Char)
  | [] => none
  | '\'' :: '\'' :: '\'' :: rest => closing '\'' ('\'' :: '\'' :: '\'' :: rest)
  | c :: rest => if isPrintable c || c == '\n' then push (some c) (literalLines rest) else none

/-- A newline right behind triple quotes is not part of the text. -/
def dropNewline (cs : List Char) : List Char :=
  match cs with
  | '\n' :: rest => rest
  | _ => cs

/-- Any string, at its opening quote. -/
def string? : List Char → Option (List Char × List Char)
  | '"' :: '"' :: '"' :: rest => basicLines false (dropNewline rest)
  | '"' :: rest => basicString rest
  | '\'' :: '\'' :: '\'' :: rest => literalLines (dropNewline rest)
  | '\'' :: rest => literalString rest
  | _ => none

def isBareKey (c : Char) : Bool := c.isAlphanum || c == '-' || c == '_'

/-- One part of a key: bare, or a string on one line. -/
def keyPart : List Char → Option (String × List Char)
  | '"' :: rest => (basicString rest).map fun r => (String.ofList r.1, r.2)
  | '\'' :: rest => (literalString rest).map fun r => (String.ofList r.1, r.2)
  | cs =>
    let name := cs.takeWhile isBareKey
    if name.isEmpty then none else some (String.ofList name, cs.dropWhile isBareKey)

/-- The greatest number of parts of a key and of levels of a value. -/
def nestingLimit : Nat := 79

/-- A dotted key, blanks around its parts dropped. -/
def keyParts : Nat → List Char → Option (List String × List Char)
  | 0, _ => none
  | fuel + 1, cs => do
    let (name, cs) ← keyPart (skipBlanks cs)
    match skipBlanks cs with
    | '.' :: cs =>
      let (names, cs) ← keyParts fuel cs
      return (name :: names, cs)
    | cs => return ([name], cs)

def key? (cs : List Char) : Option (List String × List Char) := keyParts nestingLimit cs

/-- Digits of a base with single underscores between them. -/
def groupedDigits? (isDigit : Char → Bool) (cs : List Char) : Option (List Char) :=
  let groups := cs.splitOn '_'
  if groups.all fun g => !g.isEmpty && g.all isDigit then some groups.flatten else none

/-- A sign and the text behind it. -/
def signed (cs : List Char) : Bool × List Char :=
  match cs with
  | '-' :: rest => (true, rest)
  | '+' :: rest => (false, rest)
  | _ => (false, cs)

/-- Decimal digits without a leading zero. -/
def decimal? (cs : List Char) : Option (List Char) := do
  let digits ← groupedDigits? Char.isDigit cs
  if digits.head? == some '0' && digits.length != 1 then none else some digits

def based? (base : Nat) (cs : List Char) : Option Int := do
  let digits ← groupedDigits? (fun c => (hexValue c).any (· < base)) cs
  some (digits.foldl (fun n c => n * base + (hexValue c).getD 0) 0 : Nat)

/-- A 64-bit integer, decimal with a sign or in another base without one. -/
def integer? (cs : List Char) : Option Int :=
  let value :=
    match cs with
    | '0' :: 'x' :: cs => based? 16 cs
    | '0' :: 'o' :: cs => based? 8 cs
    | '0' :: 'b' :: cs => based? 2 cs
    | _ =>
      let (negative, digits) := signed cs
      (decimal? digits).map fun ds =>
        let n : Int := Decimal.ofDigits ds
        if negative then -n else n
  value.filter Integer.isWord

/-- A whole part, then a fraction or an exponent or both; or infinity or not a
number by name. A numeral too great to be finite is refused unless negative. -/
def float? (cs : List Char) : Option Binary64 :=
  let body := (signed cs).2
  if body = ['i', 'n', 'f'] ∨ body = ['n', 'a', 'n'] then Binary64.parse? cs
  else do
    let isMark (c : Char) : Bool := c == 'e' || c == 'E'
    let mantissa := body.takeWhile (!isMark ·)
    let power := body.dropWhile (!isMark ·)
    let whole := mantissa.takeWhile (· != '.')
    let fraction := mantissa.dropWhile (· != '.')
    let _ ← decimal? whole
    if !fraction.isEmpty then
      let _ ← groupedDigits? Char.isDigit fraction.tail
    if !power.isEmpty then
      let _ ← groupedDigits? Char.isDigit (signed power.tail).2
    if fraction.isEmpty && power.isEmpty then none
    else
      let x ← Binary64.parse? (cs.filter (· != '_'))
      if x.isFinite || x.isNegative then some x else none

def twoDigits? (cs : List Char) : Option (Nat × List Char) :=
  match cs with
  | a :: b :: rest =>
    if a.isDigit && b.isDigit then some (Decimal.ofDigits [a, b], rest) else none
  | _ => none

/-- Year, month and day. -/
def date? (cs : List Char) : Option (List Char) := do
  let year := cs.take 4
  if year.length != 4 || !year.all Char.isDigit then none
  else
    match cs.drop 4 with
    | '-' :: cs =>
      let (month, cs) ← twoDigits? cs
      match cs with
      | '-' :: cs =>
        let (day, cs) ← twoDigits? cs
        if Date.isValid ⟨Decimal.ofDigits year, month, day⟩ then some cs else none
      | _ => none
    | _ => none

/-- Hour, minute, second and an optional fraction. -/
def time? (cs : List Char) : Option (List Char) := do
  let (hour, cs) ← twoDigits? cs
  match cs with
  | ':' :: cs =>
    let (minute, cs) ← twoDigits? cs
    match cs with
    | ':' :: cs =>
      let (second, cs) ← twoDigits? cs
      if hour ≤ 23 ∧ minute ≤ 59 ∧ second ≤ 60 then
        match cs with
        | '.' :: cs =>
          if (cs.takeWhile Char.isDigit).isEmpty then none else some (cs.dropWhile Char.isDigit)
        | _ => some cs
      else none
    | _ => none
  | _ => none

/-- A time with its offset, if there is one, up to the end. -/
def offsetTime? (cs : List Char) : Bool :=
  match time? cs with
  | none => false
  | some [] => true
  | some (c :: cs) =>
    if c = 'Z' ∨ c = 'z' then cs.isEmpty
    else if c = '+' ∨ c = '-' then
      match twoDigits? cs with
      | some (hour, ':' :: cs) =>
        match twoDigits? cs with
        | some (minute, []) => hour ≤ 23 && minute ≤ 59
        | _ => false
      | _ => false
    else false

/-- A date, a time, or both around a `T`. -/
def isDateTime (cs : List Char) : Bool :=
  match date? cs with
  | some [] => true
  | some (c :: rest) => (c == 'T' || c == 't') && offsetTime? rest
  | none => time? cs == some []

def isScalarChar (c : Char) : Bool :=
  c.isAlphanum || c == '+' || c == '-' || c == '_' || c == '.' || c == ':'

/-- A scalar that is no string: its characters up to one that cannot belong to
it. A date may be followed by its time behind a blank. No field takes a date. -/
def scalar (cs : List Char) : Option (Tree × List Char) :=
  let token := cs.takeWhile isScalarChar
  let rest := cs.dropWhile isScalarChar
  if token = ['t', 'r', 'u', 'e'] then some (.bool true, rest)
  else if token = ['f', 'a', 'l', 's', 'e'] then some (.bool false, rest)
  else
    match integer? token with
    | some n => some (.int n, rest)
    | none =>
      match float? token with
      | some x => some (.float x, rest)
      | none =>
        match rest with
        | ' ' :: behind =>
          if date? token == some [] && behind.head?.any Char.isDigit then
            if offsetTime? (behind.takeWhile isScalarChar) then
              some (.fault .unreadable, behind.dropWhile isScalarChar)
            else none
          else if isDateTime token then some (.fault .unreadable, rest)
          else none
        | _ => if isDateTime token then some (.fault .unreadable, rest) else none

end ODataQuery.Toml
