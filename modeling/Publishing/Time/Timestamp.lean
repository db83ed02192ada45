import Publishing.Text.Blank
import Publishing.Text.Digit
import Publishing.Time.Date

/-
Instants in UTC, to the nanosecond, and their text.

An instant is written as a date, a time and `Z`.  Reading accepts any offset and
some freedom with blanks and separators, and shifts the instant to UTC.
-/

namespace Publishing

/-- Seconds since the start of 1970, and nanoseconds within the second.  A leap
second is written as second 60 of a minute, and is kept as the part of second 59
beyond its end. -/
structure Timestamp where
  seconds : Int
  nanos : Nat
  bounded : nanos < 1000000000 ∨ (nanos < 2000000000 ∧ seconds % 60 = 59)
  deriving DecidableEq

namespace Timestamp

open Text

def ofSeconds (seconds : Int) : Timestamp := ⟨seconds, 0, .inl (by decide)⟩

instance : Inhabited Timestamp := ⟨ofSeconds 0⟩

def ofParts? (seconds : Int) (nanos : Nat) : Option Timestamp :=
  if h : nanos < 1000000000 ∨ (nanos < 2000000000 ∧ seconds % 60 = 59) then
    some ⟨seconds, nanos, h⟩
  else none

def date (t : Timestamp) : Date := .ofDay (t.seconds / 86400)

/-- Seconds since midnight. -/
def secondOfDay (t : Timestamp) : Nat := (t.seconds % 86400).toNat

/-- Whole milliseconds from `start` to `t`, none if `start` lies ahead. -/
def millisSince (t start : Timestamp) : Nat :=
  (((t.seconds - start.seconds) * 1000000000 + t.nanos - start.nanos) / 1000000).toNat

/-! ## Text -/

/-- Years from 0 to 9999 have four digits; the others have a sign and at least
four digits. -/
def yearText (year : Int) : List Char :=
  if 0 ≤ year ∧ year ≤ 9999 then padded 4 year.toNat
  else (if year < 0 then '-' else '+') :: padded 4 year.natAbs

def dateText (d : Date) : List Char :=
  yearText d.year ++ '-' :: padded 2 d.month.toNat ++ '-' :: padded 2 d.day.toNat

/-- The fraction of a second in groups of three digits, as many as it needs. -/
def fractionText (nanos : Nat) : List Char :=
  if nanos = 0 then []
  else if nanos % 1000000 = 0 then '.' :: padded 3 (nanos / 1000000)
  else if nanos % 1000 = 0 then '.' :: padded 6 (nanos / 1000)
  else '.' :: padded 9 nanos

def timeText (t : Timestamp) : List Char :=
  let s := t.secondOfDay
  padded 2 (s / 3600) ++ ':' :: padded 2 (s / 60 % 60) ++
    ':' :: padded 2 (s % 60 + t.nanos / 1000000000) ++ fractionText (t.nanos % 1000000000)

def text (t : Timestamp) : String :=
  String.ofList (dateText t.date ++ 'T' :: t.timeText ++ ['Z'])

/-- The text for people. -/
def display (t : Timestamp) : String :=
  String.ofList (dateText t.date ++ ' ' :: t.timeText ++ " UTC".toList)

/-! ## Reading -/

/-- A number of at most `width` digits after blanks. -/
def readNumber (width : Nat) (cs : List Char) : Option (Nat × List Char) :=
  let cs := trimStartList cs
  let ds := (cs.take width).takeWhile isDigit
  if ds = [] then none else some (numberOf ds, cs.drop ds.length)

/-- A year of at most four digits, or of any length with a sign. -/
def readYear (cs : List Char) : Option (Int × List Char) :=
  match trimStartList cs with
  | '-' :: cs => signed (-1) cs
  | '+' :: cs => signed 1 cs
  | cs => (readNumber 4 cs).map fun (n, rest) => (n, rest)
where
  signed (sign : Int) (cs : List Char) : Option (Int × List Char) :=
    let ds := cs.takeWhile isDigit
    if ds = [] then none else some (sign * numberOf ds, cs.drop ds.length)

/-- The character `c` after blanks. -/
def readMark (c : Char) (cs : List Char) : Option (List Char) :=
  match trimStartList cs with
  | d :: rest => if d = c then some rest else none
  | [] => none

def readDate (cs : List Char) : Option (Date × List Char) := do
  let (year, cs) ← readYear cs
  let cs ← readMark '-' cs
  let (month, cs) ← readNumber 2 cs
  let cs ← readMark '-' cs
  let (day, cs) ← readNumber 2 cs
  return (⟨year, month, day⟩, cs)

/-- The fraction of a second; digits after the ninth are dropped. -/
def readFraction : List Char → Option (Nat × List Char)
  | '.' :: cs =>
    let ds := cs.takeWhile isDigit
    let used := ds.take 9
    if ds = [] then none
    else some (numberOf used * Nat.pow 10 (9 - used.length), cs.drop ds.length)
  | cs => some (0, cs)

/-- A time of day in seconds, with nanoseconds beyond a whole second in a leap second. -/
def readTime (cs : List Char) : Option (Nat × Nat × List Char) := do
  let (hour, cs) ← readNumber 2 cs
  let cs ← readMark ':' cs
  let (minute, cs) ← readNumber 2 cs
  let cs ← readMark ':' cs
  let (second, cs) ← readNumber 2 cs
  let (nanos, cs) ← readFraction cs
  guard (hour ≤ 23 ∧ minute ≤ 59 ∧ second ≤ 60)
  let leap := second / 60
  return (hour * 3600 + minute * 60 + (second - leap), nanos + leap * 1000000000, cs)

def isSeparator (c : Char) : Bool := c = ':' || isBlank c

def minusSign : Char := Char.ofNat 0x2212

/-- An offset from UTC in seconds. -/
def readOffset (cs : List Char) : Option (Int × List Char) :=
  match cs with
  | c :: rest =>
    if c = 'Z' ∨ c = 'z' then some (0, rest)
    else if c = '+' then shift 1 rest
    else if c = '-' ∨ c = minusSign then shift (-1) rest
    else if (cs.take 3).map Char.toUpper = ['U', 'T', 'C'] then some (0, cs.drop 3)
    else none
  | [] => none
where
  shift (sign : Int) : List Char → Option (Int × List Char)
    | a :: b :: cs =>
      match cs.dropWhile isSeparator with
      | c :: d :: cs =>
        if [a, b, c, d].all isDigit ∧ numberOf [c, d] < 60 ∧ numberOf [a, b] < 24 then
          some (sign * (numberOf [a, b] * 3600 + numberOf [c, d] * 60), cs)
        else none
      | _ => none
    | _ => none

/-- The years that an instant may lie in. -/
def yearInRange (year : Int) : Bool := -262143 ≤ year && year ≤ 262142

def ofText? (s : String) : Option Timestamp := do
  let (date, cs) ← readDate s.toList
  let cs ← match cs with
    | 't' :: cs | 'T' :: cs | ' ' :: cs => some cs
    | _ => none
  let (second, nanos, cs) ← readTime cs
  let (offset, cs) ← readOffset (trimStartList cs)
  guard (cs.all isBlank ∧ yearInRange date.year ∧ date.inCalendar)
  let t ← ofParts? (date.toDay * 86400 + second - offset) nanos
  guard (yearInRange t.date.year)
  return t

example : (ofText? "1970-01-02T00:00:00Z").map text = some "1970-01-02T00:00:00Z" := by
  decide +kernel
example : (ofText? "2016-12-31 23:59:60.5 -01:30").map text = some "2017-01-01T01:29:60.500Z" := by
  decide +kernel

end Timestamp
end Publishing
