import ChainFetch.Fetch.State
import ChainFetch.Proofs.Instant.Sum
/-!
When a job is due next. Main statement: `Job.due_one_interval_later`, exactly one interval after its
latest tick or never, and no sooner for a later tick or a longer interval.
-/

namespace ChainFetch.Fetch

open Instant (longestStep InCalendar)

theorem NextRun.le_never (a : NextRun) : a.le .never = true := by cases a <;> rfl

namespace Job

variable {j k : Job} {t u : Instant}

/-- The job is not complete, and its latest tick began at `t`, away from leap seconds. -/
structure RanAt (j : Job) (t : Instant) : Prop where
  goesOn : j.complete = false
  lastRun : j.lastRun = some t
  ordinary : t.Ordinary

def dueSinceEpoch (j : Job) (t : Instant) : Int := t.sinceEpoch + j.frequency.nanos

theorem RanAt.nextRun_eq (ran : j.RanAt t) :
    j.nextRun = (t.add? j.frequency).elim .never .at := by
  rw [nextRun, ran.goesOn, ran.lastRun, if_neg Bool.false_ne_true]
  dsimp only
  cases t.add? j.frequency <;> rfl

theorem RanAt.nextRun_eq_at_iff (ran : j.RanAt t) :
    j.nextRun = .at u ↔ u.Ordinary ∧ u.sinceEpoch = j.dueSinceEpoch t := by
  rw [dueSinceEpoch, ← ran.ordinary.add?_eq_some_iff, ran.nextRun_eq]
  cases t.add? j.frequency <;> simp

theorem RanAt.nextRun_eq_never_iff (ran : j.RanAt t) :
    j.nextRun = .never ↔ ¬ InCalendar (j.dueSinceEpoch t) := by
  rw [dueSinceEpoch, ← ran.ordinary.add?_eq_none_iff, ran.nextRun_eq]
  cases t.add? j.frequency <;> simp

theorem RanAt.nextRun_le (ran : j.RanAt t) (ran' : k.RanAt u) (later : t ≤ u)
    (longer : j.frequency ≤ k.frequency) : j.nextRun.le k.nextRun = true := by
  rw [ran'.nextRun_eq]
  cases sum : u.add? k.frequency with
  | none => exact NextRun.le_never _
  | some v =>
    obtain ⟨w, sum', sooner⟩ := ran.ordinary.exists_add?_le ran'.ordinary later longer sum
    rw [ran.nextRun_eq, sum']
    exact decide_eq_true sooner

/-- A job that goes on is due one interval after its latest tick, to the nanosecond, where a sum
accepts the interval and the calendar has that instant, and never otherwise. It is due no later than
a job whose latest tick is no earlier and whose interval is no shorter, also where that is never. -/
theorem due_one_interval_later (ran : j.RanAt t) :
    (j.frequency ≤ longestStep ∧ InCalendar (j.dueSinceEpoch t) →
      ∃ u, j.nextRun = .at u ∧ u.Ordinary ∧ u.sinceEpoch = j.dueSinceEpoch t) ∧
    (¬ (j.frequency ≤ longestStep ∧ InCalendar (j.dueSinceEpoch t)) → j.nextRun = .never) ∧
    ∀ (k : Job) (u : Instant), k.RanAt u → t ≤ u → j.frequency ≤ k.frequency →
      j.nextRun.le k.nextRun = true := by
  refine ⟨?_, ?_, fun k u ran' => ran.nextRun_le ran'⟩
  · rintro ⟨-, inside⟩
    obtain ⟨u, ordinary, due⟩ := Instant.inCalendar_iff.mp inside
    exact ⟨u, ran.nextRun_eq_at_iff.mpr ⟨ordinary, due⟩, ordinary, due⟩
  · intro outside
    rw [ran.nextRun_eq_never_iff]
    intro inside
    -- The calendar ends long before an interval is too long for a sum.
    obtain ⟨u, -, due⟩ := Instant.inCalendar_iff.mp inside
    exact outside ⟨Instant.le_longestStep_of_sinceEpoch due, inside⟩

def sinceStart (frequency : Duration) : Job := { frequency, lastRun := some .epoch }

def lastInterval : Duration := .ofParts 8210266876799 999999999

def lastMoment : Instant := ⟨lastSecond, 999999999, by decide, by decide, by decide⟩

/-- The last nanosecond that a job can be due at, the one after it, and an interval that no sum
accepts. -/
theorem due_one_interval_later_lastMoment :
    (sinceStart lastInterval).RanAt .epoch ∧
    (sinceStart lastInterval).nextRun = .at lastMoment ∧
    (sinceStart (lastInterval + ⟨1⟩)).RanAt .epoch ∧
    (sinceStart (lastInterval + ⟨1⟩)).nextRun = .never ∧
    (sinceStart .longest).RanAt .epoch ∧ ¬ Duration.longest ≤ longestStep ∧
    (sinceStart .longest).nextRun = .never ∧
    (sinceStart lastInterval).nextRun.le (sinceStart .longest).nextRun = true := by
  have ran (frequency : Duration) : (sinceStart frequency).RanAt .epoch := ⟨rfl, rfl, by decide⟩
  obtain ⟨last, -, sooner⟩ := due_one_interval_later (ran lastInterval)
  obtain ⟨-, after, -⟩ := due_one_interval_later (ran (lastInterval + ⟨1⟩))
  obtain ⟨-, endless, -⟩ := due_one_interval_later (ran .longest)
  obtain ⟨u, next, ordinary, due⟩ := last ⟨by decide, by decide⟩
  refine ⟨ran _, ?_, ran _, after (by decide), ran _, by decide, endless (by decide),
    sooner _ _ (ran .longest) (by decide) (by decide)⟩
  have same : u = lastMoment := by
    rw [ordinary.eq_iff (by decide), due]
    decide
  rw [next, same]

/-- Within a leap second the order can turn: half a second leads from the end of the second before
it to beyond it, and from its beginning to its middle. -/
example :
    let before : Job := { frequency := .ofMillis 500, lastRun := Instant.mk? 59 900000000 }
    let within : Job := { frequency := .ofMillis 500, lastRun := Instant.mk? 59 1100000000 }
    before.nextRun.le within.nextRun = false := by
  decide

end Job
end ChainFetch.Fetch
