import EagerLoad.Bounds
import EagerLoad.Text.Blank

/-! # Instants

An instant counts seconds from the start of 1970 in universal time. Nanoseconds of a thousand
million and more stand for a leap second after the fifty-ninth. Instants are read from dates in the
proleptic Gregorian calendar with an offset and written in universal time. -/
namespace EagerLoad

namespace Calendar

def isLeapYear (year : Int) : Bool := year % 4 == 0 && (year % 100 != 0 || year % 400 == 0)

def daysInMonth (year : Int) (month : Nat) : Nat :=
  if month = 2 then (if isLeapYear year then 29 else 28)
  else if month = 4 ∨ month = 6 ∨ month = 9 ∨ month = 11 then 30
  else 31

/-- Days from the start of 1970 to a date. The year is taken to begin in March, so that the leap
day is its last. -/
def daysFromCivil (year : Int) (month day : Nat) : Int :=
  let y := if month ≤ 2 then year - 1 else year
  let era := y.fdiv 400
  let yearOfEra := y - era * 400
  let monthFromMarch := (month + 9) % 12
  let dayOfYear : Int := (153 * monthFromMarch + 2) / 5 + day - 1
  let dayOfEra := yearOfEra * 365 + yearOfEra / 4 - yearOfEra / 100 + dayOfYear
  era * 146097 + dayOfEra - 719468

def civilFromDays (days : Int) : Int × Nat × Nat :=
  let z := days + 719468
  let era := z.fdiv 146097
  let dayOfEra := (z - era * 146097).toNat
  let yearOfEra := (dayOfEra - dayOfEra / 1460 + dayOfEra / 36524 - dayOfEra / 146096) / 365
  let dayOfYear := dayOfEra - (365 * yearOfEra + yearOfEra / 4 - yearOfEra / 100)
  let monthFromMarch := (5 * dayOfYear + 2) / 153
  let day := dayOfYear - (153 * monthFromMarch + 2) / 5 + 1
  let month := if monthFromMarch < 10 then monthFromMarch + 3 else monthFromMarch - 9
  let year : Int := yearOfEra + era * 400
  (if month ≤ 2 then year + 1 else year, month, day)

def firstYear : Int := -262143
def lastYear : Int := 262142

def yearInRange (secs : Int) : Bool :=
  let (year, _, _) := civilFromDays (secs.fdiv 86400)
  firstYear ≤ year && year ≤ lastYear

end Calendar

/-- Seconds that a date can have, and nanoseconds, which run on only in the last second of a
minute. -/
structure Instant where
  secs : Int
  nanos : Nat
  inRange : Calendar.yearInRange secs = true
  leap : nanos < 1000000000 ∨ (nanos < 2000000000 ∧ secs % 60 = 59)
deriving DecidableEq, Repr

namespace Instant

open Calendar

instance : Inhabited Instant := ⟨0, 0, by decide, by decide⟩

/-- The instant of seconds and nanoseconds, if there is one. -/
def make? (secs : Int) (nanos : Nat) : Option Instant :=
  if h : Calendar.yearInRange secs = true ∧
      (nanos < 1000000000 ∨ (nanos < 2000000000 ∧ secs % 60 = 59)) then
    some ⟨secs, nanos, h.1, h.2⟩
  else none

/-- Between one and so many digits, after blanks. -/
def readNumber? (most : Nat) (cs : List Char) : Option (Nat × List Char) := do
  let cs := Text.trimStart cs
  let digits := (cs.take most).takeWhile Char.isDigit
  let n ← Text.digits? digits
  some (n, cs.drop digits.length)

/-- A year of at most four digits, or a signed one of any length. -/
def readYear? (cs : List Char) : Option (Int × List Char) :=
  match Text.trimStart cs with
  | '-' :: rest => unsigned? rest |>.map fun (n, rest) => (-(n : Int), rest)
  | '+' :: rest => unsigned? rest |>.map fun (n, rest) => ((n : Int), rest)
  | cs => readNumber? 4 cs |>.map fun (n, rest) => ((n : Int), rest)
where
  unsigned? (cs : List Char) : Option (Nat × List Char) := do
    let digits := cs.takeWhile Char.isDigit
    let n ← Text.digits? digits
    if n < Bounds.signed64 then some (n, cs.drop digits.length) else none

def readMark? (mark : Char) (cs : List Char) : Option (List Char) :=
  match Text.trimStart cs with
  | c :: rest => if c = mark then some rest else none
  | [] => none

/-- The nanoseconds after a point; digits after the ninth are dropped. -/
def readFraction? : List Char → Option (Nat × List Char)
  | '.' :: rest => do
    let digits := (rest.take 9).takeWhile Char.isDigit
    let n ← Text.digits? digits
    some (n * Nat.pow 10 (9 - digits.length), rest.dropWhile Char.isDigit)
  | cs => some (0, cs)

def readTwoDigits? : List Char → Option (Nat × List Char)
  | a :: b :: rest => (Text.digits? [a, b]).map fun n => (n, rest)
  | _ => none

def readOffset? (cs : List Char) : Option (Int × List Char) :=
  match cs with
  | 'Z' :: rest | 'z' :: rest => some (0, rest)
  | '+' :: rest => signed? 1 rest
  | '-' :: rest => signed? (-1) rest
  | '−' :: rest => signed? (-1) rest
  | a :: b :: c :: rest =>
    if [a, b, c].map Char.toUpper = ['U', 'T', 'C'] then some (0, rest) else none
  | _ => none
where
  signed? (sign : Int) (cs : List Char) : Option (Int × List Char) := do
    let (hours, rest) ← readTwoDigits? cs
    let rest := rest.dropWhile fun c => c == ':' || Text.isBlank c
    let (minutes, rest) ← readTwoDigits? rest
    if 60 ≤ minutes then none
    some (sign * (hours * 3600 + minutes * 60 : Nat), rest)

def parse? (s : String) : Option Instant := do
  let (year, rest) ← readYear? s.toList
  let rest ← readMark? '-' rest
  let (month, rest) ← readNumber? 2 rest
  let rest ← readMark? '-' rest
  let (day, rest) ← readNumber? 2 rest
  let rest ← match rest with
    | 't' :: rest | 'T' :: rest | ' ' :: rest => some rest
    | _ => none
  let (hour, rest) ← readNumber? 2 rest
  let rest ← readMark? ':' rest
  let (minute, rest) ← readNumber? 2 rest
  let rest ← readMark? ':' rest
  let (second, rest) ← readNumber? 2 rest
  let (nanos, rest) ← readFraction? rest
  let (offset, rest) ← readOffset? (Text.trimStart rest)
  if !(Text.trimStart rest).isEmpty then none
  if year < firstYear ∨ lastYear < year then none
  if month < 1 ∨ 12 < month ∨ day < 1 ∨ daysInMonth year month < day then none
  if 23 < hour ∨ 59 < minute ∨ 60 < second then none
  if 86400 ≤ offset.natAbs then none
  let whole := if second = 60 then 59 else second
  let extra := if second = 60 then 1000000000 else 0
  let time := hour * 3600 + minute * 60 + whole
  let secs := daysFromCivil year month day * 86400 + (time : Int) - offset
  make? secs (nanos + extra)

def padded (width n : Nat) : List Char :=
  let digits := Nat.toDigits 10 n
  List.replicate (width - digits.length) '0' ++ digits

/-- None, three, six or nine digits, the fewest that are exact. -/
def fractionText (nanos : Nat) : List Char :=
  if nanos = 0 then []
  else if nanos % 1000000 = 0 then '.' :: padded 3 (nanos / 1000000)
  else if nanos % 1000 = 0 then '.' :: padded 6 (nanos / 1000)
  else '.' :: padded 9 nanos

def yearText (year : Int) : List Char :=
  if 0 ≤ year ∧ year ≤ 9999 then padded 4 year.toNat
  else (if year < 0 then '-' else '+') :: padded 4 year.natAbs

/-- The date and time in universal time, up to the offset. -/
def body (i : Instant) : List Char :=
  let (year, month, day) := civilFromDays (i.secs.fdiv 86400)
  let time := (i.secs.fmod 86400).toNat
  let leap := 1000000000 ≤ i.nanos
  let second := time % 60 + (if leap then 1 else 0)
  let nanos := if leap then i.nanos - 1000000000 else i.nanos
  yearText year ++ '-' :: (padded 2 month ++ '-' :: (padded 2 day ++
    'T' :: (padded 2 (time / 3600) ++ ':' :: (padded 2 (time / 60 % 60) ++
      ':' :: (padded 2 second ++ fractionText nanos)))))

def markedText (i : Instant) : String := String.ofList (i.body ++ ['Z'])

def offsetText (i : Instant) : String := String.ofList (i.body ++ "+00:00".toList)

end Instant
end EagerLoad
