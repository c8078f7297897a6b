import Mathlib.Tactic.IntervalCases
import ChainFetch.Instant.Calendar
/-!
The two directions of the calendar. Main statements: `toDays_ofDays`, every day is found again by
its date, and `isDate_ofDays`, that date exists.
-/

namespace ChainFetch.Calendar

/-- Day `e` of an era lies in its century `c`, in the four years `k` of that, in the year `j` of
those, and is day `s` of that year. Only a leap year has a day 365, and of the centuries only the
last ends with one. -/
structure Lies (e c k j s : Int) : Prop where
  century : 0 ≤ c ∧ c ≤ 3
  cycle : 0 ≤ k ∧ k ≤ 24
  year : 0 ≤ j ∧ j ≤ 3
  day : 0 ≤ s ∧ s ≤ 365
  leap : s = 365 → j = 3 ∧ (k = 24 → c = 3)
  sum : e = 36524 * c + 1461 * k + 365 * j + s

theorem exists_lies {e : Int} (early : 0 ≤ e) (late : e < 146097) : ∃ c k j s, Lies e c k j s := by
  -- The last day of an era is left over by its centuries, and the last of four years by the years.
  let c := min (e / 36524) 3
  let r := e - 36524 * c
  let j := min (r % 1461 / 365) 3
  refine ⟨c, r / 1461, j, r % 1461 - 365 * j, ?_, ?_, ?_, ?_, ?_, ?_⟩ <;> omega

variable {e c k j s : Int}

namespace Lies

theorem centuries (h : Lies e c k j s) : e / 36524 - e / 146096 = c := by
  obtain ⟨century, cycle, year, day, leap, sum⟩ := h
  by_cases last : 1461 * k + 365 * j + s = 36524
  · have : c = 3 := by omega
    omega
  · have : 1461 * k + 365 * j + s < 36524 := by omega
    have own : e / 36524 = c := by omega
    have none : e / 146096 = 0 := by omega
    omega

theorem year_eq (h : Lies e c k j s) :
    (e - e / 1460 + e / 36524 - e / 146096) / 365 = 100 * c + 4 * k + j := by
  have centuries := h.centuries
  obtain ⟨century, cycle, year, day, leap, sum⟩ := h
  have cycles : e / 1460 = 25 * c + k + (24 * c + k + 365 * j + s) / 1460 := by omega
  have regroup : e - e / 1460 + e / 36524 - e / 146096 = e - e / 1460 + c := by omega
  rw [regroup, cycles]
  omega

theorem day_eq (h : Lies e c k j s) {y : Int} (year : y = 100 * c + 4 * k + j) :
    e - (365 * y + y / 4 - y / 100) = s := by
  have fours : y / 4 = 25 * c + k := by have := h.year; omega
  have hundreds : y / 100 = c := by have := h.cycle; have := h.year; omega
  have := h.sum
  omega

end Lies

theorem ofDays_cases (z : Int) : ∃ era e c k j s : Int, ∃ marchMonth month : Nat,
    z + 719468 = 146097 * era + e ∧ Lies e c k j s ∧ ((5 * s + 2) / 153).toNat = marchMonth ∧
      (if marchMonth < 10 then marchMonth + 3 else marchMonth - 9) = month ∧
      ofDays z =
        (if month ≤ 2 then 100 * c + 4 * k + j + era * 400 + 1 else 100 * c + 4 * k + j + era * 400,
          month, s.toNat - (153 * marchMonth + 2) / 5 + 1) := by
  obtain ⟨c, k, j, s, lies⟩ := exists_lies (Int.emod_nonneg (z + 719468) (by decide))
    (Int.emod_lt_of_pos (z + 719468) (by decide))
  have era := (Int.mul_ediv_add_emod (z + 719468) 146097).symm
  refine ⟨_, _, c, k, j, s, _, _, era, lies, rfl, rfl, ?_⟩
  unfold ofDays
  dsimp only
  rw [lies.year_eq, lies.day_eq rfl]

theorem place_of_month {marchMonth month : Nat} (least : marchMonth ≤ 11)
    (named : (if marchMonth < 10 then marchMonth + 3 else marchMonth - 9) = month) :
    (month + 9) % 12 = marchMonth := by
  split at named <;> omega

theorem toDays_eq {year n era : Int} {month day marchMonth : Nat}
    (own : (if month ≤ 2 then year - 1 else year) = n + era * 400) (range : 0 ≤ n ∧ n < 400)
    (place : (month + 9) % 12 = marchMonth) :
    toDays year month day = era * 146097 + n * 365 + n / 4 - n / 100 +
      (((153 * marchMonth + 2) / 5 + day : Nat) - 1) - 719468 := by
  have era_eq : (n + era * 400) / 400 = era := by omega
  have year_eq : (n + era * 400) % 400 = n := by omega
  unfold toDays
  dsimp only
  rw [own, place, era_eq, year_eq]

theorem year_from_march {winter : Prop} [Decidable winter] (year : Int) :
    (if winter then (if winter then year + 1 else year) - 1
      else if winter then year + 1 else year) = year := by
  split
  · exact Int.add_sub_cancel _ _
  · rfl

/-- A date leads back to the day that it was read from. -/
theorem toDays_ofDays (z : Int) : toDays (ofDays z).1 (ofDays z).2.1 (ofDays z).2.2 = z := by
  obtain ⟨era, e, c, k, j, s, marchMonth, month, sum, lies, march, named, same⟩ := ofDays_cases z
  have back := lies.day_eq rfl
  obtain ⟨century, cycle, year, day, -, -⟩ := lies
  rw [same, toDays_eq (year_from_march _) (by omega) (place_of_month (by omega) named)]
  dsimp only
  omega

theorem day_le_of_march {year : Int} {marchMonth : Nat} (early : marchMonth < 11)
    (march : ((5 * s + 2) / 153).toNat = marchMonth) :
    s.toNat - (153 * marchMonth + 2) / 5 + 1 ≤
      daysInMonth year (if marchMonth < 10 then marchMonth + 3 else marchMonth - 9) := by
  interval_cases marchMonth <;> simp [daysInMonth] <;> omega

theorem le_daysInMonth_february (year : Int) : 28 ≤ daysInMonth year 2 := by
  change 28 ≤ if isLeap year then 29 else 28
  split <;> decide

theorem daysInMonth_le (year : Int) (month : Nat) : daysInMonth year month ≤ 31 := by
  unfold daysInMonth
  split
  · split <;> decide
  all_goals decide

theorem lt_of_isDate {year : Int} {month day : Nat} (date : isDate year month day = true) :
    month < 100 ∧ day < 100 := by
  have days := daysInMonth_le year month
  simp only [isDate, Bool.and_eq_true, decide_eq_true_eq] at date
  omega

theorem Lies.leap_of_last (h : Lies e c k j s) (last : s = 365) (era : Int) :
    isLeap (100 * c + 4 * k + j + era * 400 + 1) = true := by
  obtain ⟨century, cycle, year, day, leap, -⟩ := h
  obtain ⟨rfl, whole⟩ := leap last
  simp only [isLeap, decide_eq_true_eq]
  refine ⟨by omega, ?_⟩
  by_cases fours : k = 24
  · exact Or.inr (by have := whole fours; omega)
  · exact Or.inl (by omega)

theorem isDate_ofDays (z : Int) : isDate (ofDays z).1 (ofDays z).2.1 (ofDays z).2.2 = true := by
  obtain ⟨era, e, c, k, j, s, marchMonth, month, -, lies, march, named, same⟩ := ofDays_cases z
  rw [same]
  have day := lies.day
  have least : marchMonth ≤ 11 := by omega
  have range : 1 ≤ month ∧ month ≤ 12 := by split at named <;> omega
  simp only [isDate, Bool.and_eq_true, decide_eq_true_eq]
  refine ⟨⟨range, Nat.le_add_left 1 _⟩, ?_⟩
  rcases Nat.lt_or_eq_of_le least with early | rfl
  · rw [← named]
    exact day_le_of_march early march
  · cases named
    by_cases last : s = 365
    · simp [daysInMonth, lies.leap_of_last last, last]
    · have short : s.toNat - (153 * 11 + 2) / 5 + 1 ≤ 28 := by omega
      exact Nat.le_trans short (le_daysInMonth_february _)

end ChainFetch.Calendar
