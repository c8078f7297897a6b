import ChainFetch.Instant
/-!
Instants on the line of nanoseconds. Main statements: `Ordinary.add?_eq_some_iff` and
`Ordinary.add?_eq_none_iff`, away from leap seconds a sum is exact and is missing only where the
calendar ends, and `Ordinary.exists_add?_le`, it keeps the order.
-/

namespace ChainFetch.Instant

variable {t u v : Instant} {d e : Duration} {n : Int}

def Ordinary (t : Instant) : Prop := t.nanos < 1000000000

instance (t : Instant) : Decidable t.Ordinary :=
  inferInstanceAs (Decidable (t.nanos < 1000000000))

/-- Nanoseconds from the start of 1970; a leap second shares its own with the second after it. -/
def sinceEpoch (t : Instant) : Int := t.secs * 1000000000 + t.nanos

/-- From the first nanosecond of the year -262143 to the last one of the year 262142. -/
def InCalendar (n : Int) : Prop :=
  firstSecond * 1000000000 ≤ n ∧ n < (lastSecond + 1) * 1000000000

instance (n : Int) : Decidable (InCalendar n) :=
  inferInstanceAs
    (Decidable (firstSecond * 1000000000 ≤ n ∧ n < (lastSecond + 1) * 1000000000))

/-! ## Instants as numbers -/

theorem Ordinary.eq_iff (ht : t.Ordinary) (hu : u.Ordinary) :
    t = u ↔ t.sinceEpoch = u.sinceEpoch := by
  unfold Ordinary at ht hu
  constructor
  · rintro rfl
    rfl
  · intro same
    unfold sinceEpoch at same
    exact ext (by omega) (by omega)

theorem Ordinary.le_iff (ht : t.Ordinary) (hu : u.Ordinary) :
    t ≤ u ↔ t.sinceEpoch ≤ u.sinceEpoch := by
  unfold Ordinary at ht hu
  rw [le_def, sinceEpoch, sinceEpoch]
  omega

theorem inCalendar_iff : InCalendar n ↔ ∃ t : Instant, t.Ordinary ∧ t.sinceEpoch = n := by
  unfold InCalendar
  constructor
  · rintro ⟨first, last⟩
    refine ⟨⟨n / 1000000000, (n % 1000000000).toNat, ?_, ?_, ?_⟩, ?_, ?_⟩
    · omega
    · omega
    · omega
    · unfold Ordinary
      dsimp only
      omega
    · unfold sinceEpoch
      dsimp only
      omega
  · rintro ⟨t, ordinary, rfl⟩
    have first := t.secs_ge
    have last := t.secs_le
    unfold Ordinary at ordinary
    unfold sinceEpoch
    omega

/-! ## Sums -/

theorem le_longestStep_of_sinceEpoch (same : u.sinceEpoch = t.sinceEpoch + d.nanos) :
    d ≤ longestStep := by
  have first := t.secs_ge
  have last := u.secs_le
  have bound := u.nanos_lt
  have step : longestStep.nanos = 9223372036854775807000000 := rfl
  rw [Duration.le_def, step]
  unfold sinceEpoch at same
  unfold firstSecond at first
  unfold lastSecond at last
  omega

/-- Away from leap seconds a sum is exact to the nanosecond, and is there if its instant is. -/
theorem Ordinary.add?_eq_some_iff (ht : t.Ordinary) :
    t.add? d = some u ↔ u.Ordinary ∧ u.sinceEpoch = t.sinceEpoch + d.nanos := by
  unfold Ordinary at ht
  constructor
  · intro sum
    rcases add?_cases sum with ⟨leap, -⟩ | ⟨-, secs, nanos⟩
    · omega
    · unfold Ordinary sinceEpoch
      omega
  · rintro ⟨hu, same⟩
    have short : ¬ longestStep < d := Nat.not_lt.mpr (le_longestStep_of_sinceEpoch same)
    have plain : ¬ (1000000000 ≤ t.nanos ∧ t.nanos + d.nanos < 2000000000) := by omega
    unfold Ordinary at hu
    unfold sinceEpoch at same
    have secs : t.secs + ((t.nanos % 1000000000 + d.nanos : Nat) : Int) / 1000000000 = u.secs := by
      omega
    have nanos : (t.nanos % 1000000000 + d.nanos) % 1000000000 = u.nanos := by omega
    unfold add?
    dsimp only
    rw [if_neg short, if_neg plain, secs, nanos, mk?_parts]

theorem Ordinary.add?_eq_none_iff (ht : t.Ordinary) :
    t.add? d = none ↔ ¬ InCalendar (t.sinceEpoch + d.nanos) := by
  rw [inCalendar_iff, Option.eq_none_iff_forall_ne_some, not_exists]
  exact forall_congr' fun u => not_congr ht.add?_eq_some_iff

theorem Ordinary.exists_add?_le (ht : t.Ordinary) (hu : u.Ordinary) (later : t ≤ u) (longer : d ≤ e)
    (sum : u.add? e = some v) : ∃ w, t.add? d = some w ∧ w ≤ v := by
  obtain ⟨hv, same⟩ := hu.add?_eq_some_iff.mp sum
  have first := (inCalendar_iff.mpr ⟨t, ht, rfl⟩).1
  have last := (inCalendar_iff.mpr ⟨v, hv, rfl⟩).2
  rw [ht.le_iff hu] at later
  rw [Duration.le_def] at longer
  have between : InCalendar (t.sinceEpoch + d.nanos) := ⟨by omega, by omega⟩
  obtain ⟨w, hw, sum'⟩ := inCalendar_iff.mp between
  refine ⟨w, ht.add?_eq_some_iff.mpr ⟨hw, sum'⟩, ?_⟩
  rw [hw.le_iff hv]
  omega

end ChainFetch.Instant
