/-!
# Points in time

A point in time is a number of seconds after the start of the year 2025, universal time. It is
written as date and time with the offset of universal time.
-/

namespace Lifecycle

/-- Seconds after the start of the year 2025. -/
abbrev Instant := Nat

namespace Instant

/-- A number in decimal digits, with zeros in front up to a width. -/
def padded (width n : Nat) : String :=
  let digits := Nat.toDigits 10 n
  String.ofList (List.replicate (width - digits.length) '0' ++ digits)

/-- Year, month and day of a number of days after 1 January 2025. Days are counted from 1 March of
the year 0, so that the leap day ends a year and the months have lengths in a regular pattern. -/
def date (days : Nat) : Nat × Nat × Nat :=
  let n := days + 739557
  let era := n / 146097
  let dayOfEra := n % 146097
  let yearOfEra := (dayOfEra - dayOfEra / 1460 + dayOfEra / 36524 - dayOfEra / 146096) / 365
  let dayOfYear := dayOfEra - (365 * yearOfEra + yearOfEra / 4 - yearOfEra / 100)
  let monthIndex := (5 * dayOfYear + 2) / 153
  let day := dayOfYear - (153 * monthIndex + 2) / 5 + 1
  let month := if monthIndex < 10 then monthIndex + 3 else monthIndex - 9
  let year := yearOfEra + era * 400 + (if month ≤ 2 then 1 else 0)
  (year, month, day)

def toText (instant : Instant) : String :=
  let (year, month, day) := date (instant / 86400)
  let second := instant % 86400
  padded 4 year ++ "-" ++ padded 2 month ++ "-" ++ padded 2 day ++ "T" ++
    padded 2 (second / 3600) ++ ":" ++ padded 2 (second / 60 % 60) ++ ":" ++
    padded 2 (second % 60) ++ "+00:00"

end Instant

end Lifecycle
