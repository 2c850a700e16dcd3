import Cascade.Text.Bytes

/-!
# Dates and durations as texts

Moments are seconds since the start of 1970, in universal time.
-/

namespace Cascade.Clock

structure Date where
  year : Nat
  month : Nat
  day : Nat
deriving DecidableEq

/-- The date of the day `days` after the first day of 1970. Years are counted
from March, so that a leap day is the last of its year. -/
def dateOf (days : Nat) : Date :=
  let z := days + 719468
  let era := z / 146097
  let dayOfEra := z % 146097
  let yearOfEra := (dayOfEra - dayOfEra / 1460 + dayOfEra / 36524 - dayOfEra / 146096) / 365
  let dayOfYear := dayOfEra - (365 * yearOfEra + yearOfEra / 4 - yearOfEra / 100)
  let shifted := (5 * dayOfYear + 2) / 153
  let day := dayOfYear - (153 * shifted + 2) / 5 + 1
  let month := if shifted < 10 then shifted + 3 else shifted - 9
  let year := yearOfEra + era * 400
  ⟨if month ≤ 2 then year + 1 else year, month, day⟩

def weekdays : List String := ["Sun", "Mon", "Tue", "Wed", "Thu", "Fri", "Sat"]

def months : List String :=
  ["Jan", "Feb", "Mar", "Apr", "May", "Jun", "Jul", "Aug", "Sep", "Oct", "Nov", "Dec"]

/-- A number in at least `width` places, filled up with `fill`. -/
def padded (fill : UInt8) (width n : Nat) : Bytes :=
  let digits := Bytes.ofNat n
  List.replicate (width - digits.length) fill ++ digits

def zeros (width n : Nat) : Bytes := padded 0x30 width n

def timeOfDay (seconds : Nat) : Bytes :=
  zeros 2 (seconds / 3600 % 24) ++ text ":" ++ zeros 2 (seconds / 60 % 60) ++ text ":" ++
    zeros 2 (seconds % 60)

/-- The time column of a log line, to the millisecond. -/
def stamp (seconds millis : Nat) : Bytes :=
  let d := dateOf (seconds / 86400)
  zeros 4 d.year ++ text "-" ++ zeros 2 d.month ++ text "-" ++ zeros 2 d.day ++ text "T" ++
    timeOfDay seconds ++ text "." ++ zeros 3 millis ++ text "Z"

def date (seconds : Nat) : Bytes :=
  let days := seconds / 86400
  let d := dateOf days
  text (weekdays.getD ((days + 4) % 7) "") ++ text " " ++ text (months.getD (d.month - 1) "") ++
    text " " ++ padded 0x20 2 d.day ++ text " " ++ timeOfDay seconds ++ text " UTC " ++
    Bytes.ofNat d.year

/-- `n / scale` as a decimal fraction without zeros at its end, where `places`
digits make up the scale. -/
def fraction (n scale places : Nat) : Bytes :=
  let tail := ((zeros places (n % scale)).reverse.dropWhile (· == 0x30)).reverse
  Bytes.ofNat (n / scale) ++ if tail.isEmpty then [] else text "." ++ tail

/-- A duration of `nanos` nanoseconds, in the largest unit that fits. -/
def duration (nanos : Nat) : Bytes :=
  if nanos < 1000 then Bytes.ofNat nanos ++ text "ns"
  else if nanos < 1000000 then fraction nanos 1000 3 ++ text "µs"
  else if nanos < 1000000000 then fraction nanos 1000000 6 ++ text "ms"
  else
    let minutes := nanos / 60000000000
    let seconds := fraction (nanos % 60000000000) 1000000000 9 ++ text "s"
    if minutes = 0 then seconds
    else if minutes < 60 then Bytes.ofNat minutes ++ text "m" ++ seconds
    else Bytes.ofNat (minutes / 60) ++ text "h" ++ Bytes.ofNat (minutes % 60) ++ text "m" ++ seconds

end Cascade.Clock
