/-!
# Time stamps

A count of microseconds since the beginning of 1970 as a date and a time of day in coordinated
universal time. Days are counted in eras of 400 years that begin in March, so that the leap day
is the last day of its year and months follow one rule.
-/

namespace FrameFeed

namespace Log

/-- A calendar date. -/
structure Date where
  year : Nat
  month : Nat
  day : Nat
  deriving DecidableEq, Repr

/-- The date so many days after the beginning of 1970. -/
def Date.ofDays (days : Nat) : Date :=
  let sinceMarch0 := days + 719468
  let era := sinceMarch0 / 146097
  let dayOfEra := sinceMarch0 % 146097
  let yearOfEra := (dayOfEra - dayOfEra / 1460 + dayOfEra / 36524 - dayOfEra / 146096) / 365
  let dayOfYear := dayOfEra - (365 * yearOfEra + yearOfEra / 4 - yearOfEra / 100)
  let march := (5 * dayOfYear + 2) / 153
  let month := if march < 10 then march + 3 else march - 9
  { year := era * 400 + yearOfEra + if month ≤ 2 then 1 else 0
    month
    day := dayOfYear - (153 * march + 2) / 5 + 1 }

/-- A number in at least so many digits. -/
def digits (width n : Nat) : String :=
  let cs := Nat.toDigits 10 n
  String.ofList (List.replicate (width - cs.length) '0' ++ cs)

/-- The time so many microseconds after the beginning of 1970, to the microsecond. -/
def stamp (micros : Nat) : String :=
  let seconds := micros / 1_000_000
  let date := Date.ofDays (seconds / 86400)
  digits 4 date.year ++ "-" ++ digits 2 date.month ++ "-" ++ digits 2 date.day ++ "T" ++
    digits 2 (seconds / 3600 % 24) ++ ":" ++ digits 2 (seconds / 60 % 60) ++ ":" ++
    digits 2 (seconds % 60) ++ "." ++ digits 6 (micros % 1_000_000) ++ "Z"

end Log

end FrameFeed
