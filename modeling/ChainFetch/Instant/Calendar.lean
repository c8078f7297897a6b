import ChainFetch.Instant
/-!
The proleptic Gregorian calendar: days from the start of 1970, and back.
-/

namespace ChainFetch.Calendar

def isLeap (year : Int) : Bool := year % 4 = 0 ∧ (year % 100 ≠ 0 ∨ year % 400 = 0)

def daysInMonth (year : Int) (month : Nat) : Nat :=
  match month with
  | 2 => if isLeap year then 29 else 28
  | 4 => 30
  | 6 => 30
  | 9 => 30
  | 11 => 30
  | _ => 31

def isDate (year : Int) (month day : Nat) : Bool :=
  1 ≤ month && month ≤ 12 && 1 ≤ day && day ≤ daysInMonth year month

/-- Days from the start of 1970. Years run from March, so that a leap day ends one, and are counted
in eras of 400. -/
def toDays (year : Int) (month day : Nat) : Int :=
  let y := if month ≤ 2 then year - 1 else year
  let era := y / 400
  let yearOfEra := y % 400
  let dayOfYear : Int := ((153 * ((month + 9) % 12) + 2) / 5 + day : Nat) - 1
  era * 146097 + yearOfEra * 365 + yearOfEra / 4 - yearOfEra / 100 + dayOfYear - 719468

def ofDays (days : Int) : Int × Nat × Nat :=
  let z := days + 719468
  let era := z / 146097
  let dayOfEra := z % 146097
  let yearOfEra := (dayOfEra - dayOfEra / 1460 + dayOfEra / 36524 - dayOfEra / 146096) / 365
  let dayOfYear := dayOfEra - (365 * yearOfEra + yearOfEra / 4 - yearOfEra / 100)
  let marchMonth := ((5 * dayOfYear + 2) / 153).toNat
  let day := dayOfYear.toNat - (153 * marchMonth + 2) / 5 + 1
  let month := if marchMonth < 10 then marchMonth + 3 else marchMonth - 9
  let year := yearOfEra + era * 400
  (if month ≤ 2 then year + 1 else year, month, day)

example : toDays 1970 1 1 = 0 ∧ toDays 2024 2 29 = 19782 := by decide
example : ofDays 19782 = (2024, 2, 29) ∧ ofDays (-1) = (1969, 12, 31) := by decide
example : toDays (-262143) 1 1 * 86400 = firstSecond := by decide
example : toDays 262142 12 31 * 86400 + 86399 = lastSecond := by decide

end ChainFetch.Calendar
