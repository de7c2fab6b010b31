import ODataQuery.Calendar.Date
import ODataQuery.Number.Decimal

namespace ODataQuery

/-- Minutes count from midnight UTC before 1 March of the year 0. A second 60 belongs to the
minute it was given in and is no other instant. -/
structure Instant where
  minute : Int
  second : Fin 61
  nanosecond : Fin 1000000000
  deriving DecidableEq, Repr

/-- An instant and the offset from UTC at which it was written. The offset is less than a day
and counts whole minutes to the east, as the text of a timestamp gives it. An offset with
seconds, which no text can give, has no place here. -/
structure Timestamp where
  instant : Instant
  offset : Int
  offset_lt : offset.natAbs < 1440
  deriving DecidableEq, Repr

namespace Timestamp

/-- A number of exactly `count` digits, and the text behind it. -/
def fixed? (count : Nat) (cs : List Char) : Option (Nat × List Char) :=
  let digits := cs.take count
  if digits.length = count ∧ digits.all Char.isDigit then
    some (Decimal.ofDigits digits, cs.drop count)
  else none

def mark? (p : Char → Bool) : List Char → Option (List Char)
  | c :: cs => if p c then some cs else none
  | [] => none

/-- The nanoseconds of an optional fraction: its first nine digits, with zeros for
those that are missing. -/
def fraction? (cs : List Char) : Option (Fin 1000000000 × List Char) :=
  match cs with
  | '.' :: cs =>
    let digits := cs.takeWhile Char.isDigit
    if digits.isEmpty then none
    else
      let nine := (digits ++ List.replicate 9 '0').take 9
      some (Fin.ofNat _ (Decimal.ofDigits nine), cs.dropWhile Char.isDigit)
  | _ => some (0, cs)

/-- `Z` in either case, or a sign with hours and minutes. The sign may be the
typographic minus. -/
def offset? : List Char → Option Int
  | [] => none
  | c :: cs =>
    if c = 'Z' ∨ c = 'z' then if cs.isEmpty then some 0 else none
    else if c = '+' ∨ c = '-' ∨ c = '\u2212' then do
      let (hour, cs) ← fixed? 2 cs
      let cs ← mark? (· == ':') cs
      let (minute, cs) ← fixed? 2 cs
      if cs.isEmpty ∧ hour ≤ 23 ∧ minute ≤ 59 then
        let n : Int := hour * 60 + minute
        some (if c = '+' then n else -n)
      else none
    else none

/-- Date and time stand in the local calendar of the offset. -/
def ofLocal? (date : Date) (hour minute second : Nat) (nanosecond : Fin 1000000000)
    (offset : Int) : Option Timestamp :=
  if h : date.isValid ∧ hour ≤ 23 ∧ minute ≤ 59 ∧ second ≤ 60 ∧ offset.natAbs < 1440 then
    some ⟨⟨date.toDays * 1440 + hour * 60 + minute - offset, ⟨second, by omega⟩, nanosecond⟩,
      offset, h.2.2.2.2⟩
  else none

def parse? (s : String) : Option Timestamp := do
  let (year, cs) ← fixed? 4 s.toList
  let cs ← mark? (· == '-') cs
  let (month, cs) ← fixed? 2 cs
  let cs ← mark? (· == '-') cs
  let (day, cs) ← fixed? 2 cs
  let cs ← mark? (fun c => c == 'T' || c == 't' || c == ' ') cs
  let (hour, cs) ← fixed? 2 cs
  let cs ← mark? (· == ':') cs
  let (minute, cs) ← fixed? 2 cs
  let cs ← mark? (· == ':') cs
  let (second, cs) ← fixed? 2 cs
  let (nanosecond, cs) ← fraction? cs
  let offset ← offset? cs
  ofLocal? ⟨year, month, day⟩ hour minute second nanosecond offset

def digit (n : Nat) : Char := Char.ofNat (0x30 + n % 10)

/-- The last `width` digits of a number. -/
def fixed : Nat → Nat → List Char
  | 0, _ => []
  | width + 1, n => fixed width (n / 10) ++ [digit n]

/-- Four digits for the years 0 to 9999; any other year has a sign and at least
four digits. -/
def yearText (year : Int) : List Char :=
  if 0 ≤ year ∧ year ≤ 9999 then fixed 4 year.toNat
  else
    (if year < 0 then '-' else '+') ::
      (if year.natAbs ≤ 9999 then fixed 4 year.natAbs else Nat.toDigits 10 year.natAbs)

/-- Date and time to the second, for a count of minutes in some calendar. -/
def clockText (minute : Int) (second : Nat) : List Char :=
  let date := Date.ofDays (minute / 1440)
  let time := (minute % 1440).toNat
  yearText date.year ++ '-' :: fixed 2 date.month ++ '-' :: fixed 2 date.day ++
    'T' :: fixed 2 (time / 60) ++ ':' :: fixed 2 (time % 60) ++ ':' :: fixed 2 second

/-- UTC, three fraction digits, `Z`. -/
def utcText (t : Timestamp) : String :=
  String.ofList (clockText t.instant.minute t.instant.second ++
    '.' :: fixed 3 (t.instant.nanosecond / 1000000) ++ ['Z'])

/-- No fraction, or as many of three, six and nine digits as show every
nanosecond. -/
def fractionText (nanosecond : Nat) : List Char :=
  if nanosecond = 0 then []
  else if nanosecond % 1000000 = 0 then '.' :: fixed 3 (nanosecond / 1000000)
  else if nanosecond % 1000 = 0 then '.' :: fixed 6 (nanosecond / 1000)
  else '.' :: fixed 9 nanosecond

def offsetText (offset : Int) : List Char :=
  if offset = 0 then ['Z']
  else
    (if offset < 0 then '-' else '+') :: fixed 2 (offset.natAbs / 60) ++
      ':' :: fixed 2 (offset.natAbs % 60)

/-- The local calendar of the timestamp's own offset. -/
def localText (t : Timestamp) : String :=
  String.ofList (clockText (t.instant.minute + t.offset) t.instant.second ++
    fractionText t.instant.nanosecond ++ offsetText t.offset)

end Timestamp

end ODataQuery
