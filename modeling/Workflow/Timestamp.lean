import Workflow.Text.CharClass

/-!
# Points in time

A point in time is counted in seconds and nanoseconds of coordinated universal time. It is written
as date, time and `Z`, with as many groups of three fraction digits as it needs. It is read in the
same form with any offset; numbers may be shorter than written, and blanks may stand around them.
-/

namespace Workflow

/-- A point in time. -/
structure Timestamp where
  /-- Seconds since the start of 1970. -/
  seconds : Int
  /-- Nanoseconds within the second; a leap second counts on beyond a thousand million. -/
  nanos : Nat
deriving DecidableEq

namespace Timestamp

/-- Days from the start of 1970 to a day of the proleptic Gregorian calendar. -/
def daysOfDate (year : Int) (month day : Nat) : Int :=
  let y := if month ≤ 2 then year - 1 else year
  let era := y.fdiv 400
  let yearOfEra := y - era * 400
  let shifted : Nat := (month + 9) % 12
  let dayOfYear : Nat := (153 * shifted + 2) / 5 + day - 1
  era * 146097 + (yearOfEra * 365 + yearOfEra.fdiv 4 - yearOfEra.fdiv 100 + dayOfYear) - 719468

/-- Year, month and day of a day counted from the start of 1970. -/
def dateOfDays (days : Int) : Int × Nat × Nat :=
  let z := days + 719468
  let era := z.fdiv 146097
  let dayOfEra := (z - era * 146097).toNat
  let yearOfEra := (dayOfEra - dayOfEra / 1460 + dayOfEra / 36524 - dayOfEra / 146096) / 365
  let dayOfYear := dayOfEra - (365 * yearOfEra + yearOfEra / 4 - yearOfEra / 100)
  let shifted := (5 * dayOfYear + 2) / 153
  let day := dayOfYear - (153 * shifted + 2) / 5 + 1
  let month := if shifted < 10 then shifted + 3 else shifted - 9
  let year : Int := era * 400 + yearOfEra
  (if month ≤ 2 then year + 1 else year, month, day)

/-- The number of days of a month. -/
def daysOfMonth (year : Int) (month : Nat) : Nat :=
  if month = 2 then
    if (year.emod 4 = 0 ∧ year.emod 100 ≠ 0) ∨ year.emod 400 = 0 then 29 else 28
  else if month = 4 ∨ month = 6 ∨ month = 9 ∨ month = 11 then 30
  else 31

/-- A number with at least `width` digits. -/
def padded (width n : Nat) : List Char :=
  let digits := Nat.toDigits 10 n
  List.replicate (width - digits.length) '0' ++ digits

/-- The fraction of a second in three, six or nine digits, or nothing for a full second. -/
def fraction (nanos : Nat) : List Char :=
  if nanos = 0 then []
  else if nanos % 1000000 = 0 then '.' :: padded 3 (nanos / 1000000)
  else if nanos % 1000 = 0 then '.' :: padded 6 (nanos / 1000)
  else '.' :: padded 9 nanos

/-- The text of a point in time. -/
def print (t : Timestamp) : String :=
  let days := t.seconds.fdiv 86400
  let clock := (t.seconds - days * 86400).toNat
  let (year, month, day) := dateOfDays days
  let yearText :=
    if 0 ≤ year ∧ year ≤ 9999 then padded 4 year.toNat
    else (if year < 0 then '-' else '+') :: padded 4 year.natAbs
  String.ofList <|
    yearText ++ '-' :: padded 2 month ++ '-' :: padded 2 day ++
      'T' :: padded 2 (clock / 3600) ++ ':' :: padded 2 (clock / 60 % 60) ++
      ':' :: padded 2 (clock % 60 + t.nanos / 1000000000) ++
      fraction (t.nanos % 1000000000) ++ ['Z']

/-- The characters without the blanks in front. -/
def skipBlanks (cs : List Char) : List Char :=
  cs.dropWhile CharClass.blanks.contains

/-- The number that decimal digits spell. -/
def digitsValue (digits : List Char) : Nat :=
  digits.foldl (fun n c => n * 10 + (c.toNat - 48)) 0

/-- Read one of the given characters. -/
def readChar (accepted : List Char) : List Char → Option (List Char)
  | c :: cs => if c ∈ accepted then some cs else none
  | [] => none

/-- Read a number of at least one digit and at most `width`. -/
def readNumber (width : Nat) (cs : List Char) : Option (Nat × List Char) :=
  match (cs.take width).takeWhile Char.isDigit with
  | [] => none
  | digits => some (digitsValue digits, cs.drop digits.length)

/-- Read a number of one digit or two behind blanks. -/
def readPair (cs : List Char) : Option (Nat × List Char) :=
  readNumber 2 (skipBlanks cs)

/-- Read a year behind blanks: up to four digits, or any number of digits behind a sign. -/
def readYear (cs : List Char) : Option (Int × List Char) :=
  match skipBlanks cs with
  | '-' :: cs => (readNumber cs.length cs).map fun (n, rest) => (-(n : Int), rest)
  | '+' :: cs => (readNumber cs.length cs).map fun (n, rest) => ((n : Int), rest)
  | cs => (readNumber 4 cs).map fun (n, rest) => ((n : Int), rest)

/-- Read an optional fraction of a second; digits beyond the ninth are dropped. -/
def readFraction : List Char → Option (Nat × List Char)
  | '.' :: cs =>
    match cs.takeWhile Char.isDigit with
    | [] => none
    | digits =>
      some (digitsValue (digits.take 9 ++ List.replicate (9 - digits.length) '0'),
        cs.drop digits.length)
  | cs => some (0, cs)

/-- Exactly two digits. -/
def twoDigits : List Char → Option (Nat × List Char)
  | a :: b :: cs => if a.isDigit && b.isDigit then some (digitsValue [a, b], cs) else none
  | _ => none

/-- Read hours and minutes of an offset; colons and blanks may stand between them. -/
def readClock (cs : List Char) : Option (Int × List Char) := do
  let (hours, cs) ← twoDigits cs
  let (minutes, cs) ← twoDigits (cs.dropWhile fun c => c == ':' || CharClass.blanks.contains c)
  if hours < 24 ∧ minutes < 60 then some (hours * 3600 + minutes * 60, cs) else none

/-- Read an offset in seconds east of coordinated universal time. -/
def readOffset : List Char → Option (Int × List Char)
  | c :: cs =>
    if c = 'Z' ∨ c = 'z' then some (0, cs)
    else if (c :: cs.take 2).map Char.toUpper = ['U', 'T', 'C'] then some (0, cs.drop 2)
    else if c = '+' then readClock cs
    else if c = '-' ∨ c = '−' then (readClock cs).map fun (offset, cs) => (-offset, cs)
    else none
  | [] => none

/-- The days on which points in time may lie. -/
def isWithinCalendar (days : Int) : Bool :=
  decide (daysOfDate (-262143) 1 1 ≤ days ∧ days ≤ daysOfDate 262142 12 31)

/-- Read a point in time. -/
def parse? (text : String) : Option Timestamp := do
  let (year, cs) ← readYear text.toList
  let cs ← readChar ['-'] (skipBlanks cs)
  let (month, cs) ← readPair cs
  let cs ← readChar ['-'] (skipBlanks cs)
  let (day, cs) ← readPair cs
  let cs ← readChar ['T', 't', ' '] cs
  let (hour, cs) ← readPair cs
  let cs ← readChar [':'] (skipBlanks cs)
  let (minute, cs) ← readPair cs
  let cs ← readChar [':'] (skipBlanks cs)
  let (second, cs) ← readPair cs
  let (nanos, cs) ← readFraction cs
  let (offset, cs) ← readOffset (skipBlanks cs)
  guard (skipBlanks cs).isEmpty
  guard (1 ≤ month ∧ month ≤ 12 ∧ 1 ≤ day ∧ day ≤ daysOfMonth year month)
  guard (hour < 24 ∧ minute < 60 ∧ second ≤ 60)
  let days := daysOfDate year month day
  let leap : Nat := if second = 60 then 1 else 0
  let clock : Int := hour * 3600 + minute * 60 + (second - leap : Nat)
  let seconds := days * 86400 + clock - offset
  guard (isWithinCalendar days && isWithinCalendar (seconds.fdiv 86400))
  return ⟨seconds, nanos + leap * 1000000000⟩

end Timestamp

end Workflow
