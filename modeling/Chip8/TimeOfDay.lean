/-!
# The time of day

A record tells when each of its lines was written. The time is given in seconds
since the beginning of 1970 and written as a date and a time of the day. Days are
turned into dates by years that begin in March, so that a leap day is the last day
of its year, and by eras of 400 years, which are all equally long.
-/

namespace Chip8.TimeOfDay

/-- A day of the calendar. -/
structure Date where
  year : Nat
  month : Nat
  day : Nat
  deriving DecidableEq, Repr

/-- How many days an era has. -/
def eraDays : Nat := 146097

/-- The day on which 1970 begins, counted from the first of March of the year zero. -/
def firstDay : Nat := 719468

/-- The date of a day that is counted from the first of March of the year zero. -/
def dateOf (day : Nat) : Date :=
  let inEra := day % eraDays
  let year := (inEra - inEra / 1460 + inEra / 36524 - inEra / 146096) / 365
  let inYear := inEra - (365 * year + year / 4 - year / 100)
  let sinceMarch := (5 * inYear + 2) / 153
  let month := if sinceMarch < 10 then sinceMarch + 3 else sinceMarch - 9
  { year := day / eraDays * 400 + year + (if month ≤ 2 then 1 else 0)
    month
    day := inYear - (153 * sinceMarch + 2) / 5 + 1 }

/-- A number with at least `width` decimal digits. -/
def padded (width n : Nat) : String :=
  let digits := toString n
  String.ofList (List.replicate (width - digits.length) '0') ++ digits

/-- The date and the time of the day, so many seconds after the beginning of 1970. -/
def stamp (seconds : Nat) : String :=
  let date := dateOf (firstDay + seconds / 86400)
  let inDay := seconds % 86400
  padded 4 date.year ++ "-" ++ padded 2 date.month ++ "-" ++ padded 2 date.day ++ "T"
    ++ padded 2 (inDay / 3600) ++ ":" ++ padded 2 (inDay / 60 % 60) ++ ":"
    ++ padded 2 (inDay % 60) ++ "Z"

end Chip8.TimeOfDay
