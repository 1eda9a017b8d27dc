import Covering.Decimal.Digits

/-!
# Timestamps

Moments in universal time, to the millisecond, written as RFC 3339 has them.
Years begin in March for the computation, so that a leap day comes last and the
lengths of the months follow a line.

## Main definitions

* `Instant`: Seconds since 1970 and milliseconds.
* `civilDate`: The date of a day.
* `Instant.text`: The written form.
* `Instant.millisUntil`: The time between two moments.
-/

namespace Covering

open Decimal

/-- A moment: whole seconds since the start of 1970, and milliseconds. -/
structure Instant where
  seconds : Nat
  millis : Nat
deriving DecidableEq, Repr

/-- The year, month and day that come `days` days after the first of January
    1970. -/
def civilDate (days : Nat) : Nat × Nat × Nat :=
  let z := days + 719468
  let era := z / 146097
  let dayOfEra := z % 146097
  let yearOfEra := (dayOfEra - dayOfEra / 1460 + dayOfEra / 36524 - dayOfEra / 146096) / 365
  let dayOfYear := dayOfEra - (365 * yearOfEra + yearOfEra / 4 - yearOfEra / 100)
  let shifted := (5 * dayOfYear + 2) / 153
  let day := dayOfYear - (153 * shifted + 2) / 5 + 1
  let month := if shifted < 10 then shifted + 3 else shifted - 9
  let year := yearOfEra + era * 400 + (if month ≤ 2 then 1 else 0)
  (year, month, day)

/-- The written form of a moment, such as `1970-01-01T00:00:00.000Z`. -/
def Instant.text (t : Instant) : String :=
  let (year, month, day) := civilDate (t.seconds / 86400)
  let second := t.seconds % 86400
  String.ofList (
    padded 4 year ++ '-' :: padded 2 month ++ '-' :: padded 2 day ++
    'T' :: padded 2 (second / 3600) ++ ':' :: padded 2 (second % 3600 / 60) ++
    ':' :: padded 2 (second % 60) ++ '.' :: padded 3 t.millis ++ ['Z'])

/-- The milliseconds from one moment to a later one. -/
def Instant.millisUntil (t later : Instant) : Nat :=
  (later.seconds * 1000 + later.millis) - (t.seconds * 1000 + t.millis)

end Covering
